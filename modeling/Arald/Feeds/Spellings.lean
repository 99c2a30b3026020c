import Arald.Feeds.Documents

/-!
# Spellings of a text

The text of an element is spelled with plain characters, entities, character references and CDATA
sections, with white space around it. Whatever the spelling, the parser reads the text.
-/

namespace Arald.Feeds

open Foundations Scanning

/-- `named` is one of the five entities, by the character that it stands for. -/
inductive Piece
  | plain (c : Char)
  | named (c : Char)
  | decimal (digits : List Char)
  | hex (digits : List Char)
  | cdata (chars : List Char)

def entityName (c : Char) : List Char :=
  if c = '<' then "lt".toList
  else if c = '>' then "gt".toList
  else if c = '"' then "quot".toList
  else if c = '\'' then "apos".toList
  else "amp".toList

namespace Piece

def written : Piece → List Char
  | plain c => [c]
  | named c => '&' :: entityName c ++ [';']
  | decimal digits => "&#".toList ++ digits ++ [';']
  | hex digits => "&#x".toList ++ digits ++ [';']
  | cdata chars => cdataStart ++ chars ++ cdataEnd

/-- A reference to what is no character stands for itself. -/
def value : Piece → List Char
  | plain c => [c]
  | named c => [c]
  | decimal digits => codePointOrOriginal (digitsValue 10 digits) ("&#".toList ++ digits ++ [';'])
  | hex digits => codePointOrOriginal (digitsValue 16 digits) ("&#x".toList ++ digits ++ [';'])
  | cdata chars => chars

def Valid : Piece → Prop
  | plain c => c ≠ '<' ∧ c ≠ '&'
  | named c => c ∈ ['<', '>', '"', '\'', '&']
  | decimal digits => digits ≠ [] ∧ ∀ d ∈ digits, d.isDigit = true
  | hex digits => digits ≠ [] ∧ ∀ d ∈ digits, isHexDigit d = true
  | cdata chars => ¬cdataEnd <:+: chars

def isCdata : Piece → Bool
  | cdata _ => true
  | _ => false

def token : Piece → Token
  | cdata chars => .cdata chars
  | p => .text p.written

end Piece

def spelled (pieces : List Piece) : List Char := pieces.flatMap Piece.written

def meant (pieces : List Piece) : List Char := pieces.flatMap Piece.value

section
variable {p : Piece} {pieces : List Piece} {rest text digits mark : List Char} {c : Char}

/-! ### Entities -/

theorem entityAt_of_ne (h : c ≠ '&') : entityAt (c :: rest) = none := by
  have hmark : ∀ word, word.head? = some '&' → ¬word <+: c :: rest := by
    rintro (_ | ⟨d, word⟩) hhead hprefix
    · cases hhead
    · exact h ((List.cons_prefix_cons.mp hprefix).1.symm.trans (Option.some.inj hhead))
  have hreference : ∀ word isDigit base, word.head? = some '&' → reference word isDigit base (c :: rest) = none :=
    fun word isDigit base hhead => if_neg (hmark word hhead)
  rw [entityAt, if_neg (hmark _ rfl), if_neg (hmark _ rfl), if_neg (hmark _ rfl), if_neg (hmark _ rfl),
    if_neg (hmark _ rfl), hreference _ _ _ rfl, hreference _ _ _ rfl, Option.or_none]

theorem entityAt_named (hc : c ∈ ['<', '>', '"', '\'', '&']) :
    entityAt ((Piece.named c).written ++ rest) = some ([c], (Piece.named c).written.length) := by
  simp only [List.mem_cons, List.not_mem_nil, or_false] at hc
  rcases hc with rfl | rfl | rfl | rfl | rfl
  all_goals simp [entityAt, Piece.written, entityName, List.cons_prefix_cons]

/-- A reference ends at its semicolon. -/
theorem reference_append {isDigit : Char → Bool} {base : ℕ} (hne : digits ≠ [])
    (hdigits : ∀ d ∈ digits, isDigit d = true) (hsemi : isDigit ';' = false) :
    reference mark isDigit base (mark ++ digits ++ [';'] ++ rest) =
      some (codePointOrOriginal (digitsValue base digits) (mark ++ digits ++ [';']),
        (mark ++ digits ++ [';']).length) := by
  have htext : mark ++ digits ++ [';'] ++ rest = mark ++ (digits ++ ';' :: rest) := by
    simp only [List.append_assoc, List.singleton_append]
  have htake : (digits ++ ';' :: rest).takeWhile isDigit = digits := by
    rw [List.takeWhile_append_of_pos hdigits, List.takeWhile_cons_of_neg (by rw [hsemi]; exact Bool.false_ne_true),
      List.append_nil]
  have hget : (mark ++ digits ++ [';'] ++ rest)[mark.length + digits.length]? = some ';' := by
    rw [← List.length_append, List.append_assoc, List.getElem?_append_right le_rfl, Nat.sub_self]
    rfl
  have hlength : mark.length + digits.length + 1 = (mark ++ digits ++ [';']).length := by
    rw [List.length_append, List.length_append, List.length_singleton]
  rw [reference, if_pos (htext ▸ List.prefix_append _ _)]
  dsimp only
  rw [show (mark ++ digits ++ [';'] ++ rest).drop mark.length = digits ++ ';' :: rest by
    rw [htext, List.drop_left], htake, if_pos ⟨hne, hget⟩, hlength, List.take_left]

/-- A reference is none of the entities with a name. -/
theorem entityAt_reference (c : Char) : entityAt ('&' :: '#' :: c :: rest) =
    (reference "&#x".toList isHexDigit 16 ('&' :: '#' :: c :: rest)).or
      (reference "&#".toList Char.isDigit 10 ('&' :: '#' :: c :: rest)) := by
  simp [entityAt, List.cons_prefix_cons]

theorem entityAt_decimal (hne : digits ≠ []) (hdigits : ∀ d ∈ digits, d.isDigit = true) :
    entityAt ((Piece.decimal digits).written ++ rest) =
      some ((Piece.decimal digits).value, (Piece.decimal digits).written.length) := by
  have hreference : reference "&#".toList Char.isDigit 10 ("&#".toList ++ digits ++ [';'] ++ rest) = _ :=
    reference_append hne hdigits rfl
  obtain ⟨d, tail, rfl⟩ := List.exists_cons_of_ne_nil hne
  have hhex : reference "&#x".toList isHexDigit 16 ((Piece.decimal (d :: tail)).written ++ rest) = none := by
    refine if_neg fun hprefix => ?_
    have hthird : 'x' = d := (List.cons_prefix_cons.mp (List.cons_prefix_cons.mp (List.cons_prefix_cons.mp hprefix).2).2).1
    have hdigit := hdigits d List.mem_cons_self
    rw [← hthird] at hdigit
    cases hdigit
  refine (entityAt_reference d).trans ?_
  exact (congrArg₂ Option.or hhex hreference).trans (Option.none_or)

theorem entityAt_hex (hne : digits ≠ []) (hdigits : ∀ d ∈ digits, isHexDigit d = true) :
    entityAt ((Piece.hex digits).written ++ rest) =
      some ((Piece.hex digits).value, (Piece.hex digits).written.length) := by
  have hreference : reference "&#x".toList isHexDigit 16 ("&#x".toList ++ digits ++ [';'] ++ rest) = _ :=
    reference_append hne hdigits rfl
  refine (entityAt_reference 'x').trans ?_
  exact (congrArg₂ Option.or hreference rfl).trans rfl

/-- What decodes to the value of a piece. -/
theorem decodeFrom_piece (hp : p.Valid) (hplain : p.isCdata = false) {fuel : ℕ}
    (hfuel : (p.written ++ rest).length ≤ fuel)
    (hrest : ∀ fuel, rest.length ≤ fuel → decodeFrom fuel rest = text) :
    decodeFrom fuel (p.written ++ rest) = p.value ++ text := by
  have hentity : ∀ value, 0 < p.written.length →
      entityAt (p.written ++ rest) = some (value, p.written.length) →
        decodeFrom fuel (p.written ++ rest) = value ++ text := by
    intro value hpos hat
    rw [List.length_append] at hfuel
    obtain ⟨fuel, rfl⟩ : ∃ k, fuel = k + 1 := ⟨fuel - 1, by omega⟩
    obtain ⟨c, tail, hcons⟩ := List.exists_cons_of_ne_nil (List.length_pos_iff.mp hpos)
    rw [hcons, List.cons_append] at hat ⊢
    rw [decodeFrom, hat]
    dsimp only
    rw [← List.cons_append, List.drop_left, hrest fuel]
    omega
  cases p with
  | cdata chars => cases hplain
  | plain c =>
    have hlength : (c :: rest).length ≤ fuel := hfuel
    rw [List.length_cons] at hlength
    obtain ⟨fuel, rfl⟩ : ∃ k, fuel = k + 1 := ⟨fuel - 1, by omega⟩
    change decodeFrom (fuel + 1) (c :: rest) = c :: text
    rw [decodeFrom, entityAt_of_ne hp.2]
    dsimp only
    rw [hrest fuel (by omega)]
  | named c => exact hentity [c] (Nat.succ_pos _) (entityAt_named hp)
  | decimal digits => exact hentity _ (Nat.succ_pos _) (entityAt_decimal hp.1 hp.2)
  | hex digits => exact hentity _ (Nat.succ_pos _) (entityAt_hex hp.1 hp.2)

/-- Text without CDATA sections. -/
theorem decodeEntities_spelled (hpieces : ∀ p ∈ pieces, p.Valid ∧ p.isCdata = false) :
    decodeEntities (spelled pieces) = meant pieces := by
  suffices hall : ∀ fuel, (spelled pieces).length ≤ fuel → decodeFrom fuel (spelled pieces) = meant pieces from
    hall _ le_rfl
  induction pieces with
  | nil =>
    intro fuel _
    cases fuel with
    | zero => rfl
    | succ fuel => rfl
  | cons p pieces ih =>
    intro fuel hfuel
    obtain ⟨hp, hplain⟩ := hpieces p List.mem_cons_self
    exact decodeFrom_piece hp hplain hfuel (ih fun p' hp' => hpieces p' (List.mem_cons_of_mem p hp'))

/-! ### CDATA sections -/

@[simp] theorem spelled_nil : spelled [] = [] := rfl

@[simp] theorem spelled_cons (p : Piece) (pieces : List Piece) :
    spelled (p :: pieces) = p.written ++ spelled pieces := rfl

@[simp] theorem spelled_append (pieces after : List Piece) :
    spelled (pieces ++ after) = spelled pieces ++ spelled after := List.flatMap_append

@[simp] theorem meant_cons (p : Piece) (pieces : List Piece) : meant (p :: pieces) = p.value ++ meant pieces := rfl

@[simp] theorem meant_append (pieces after : List Piece) : meant (pieces ++ after) = meant pieces ++ meant after :=
  List.flatMap_append

theorem notMem_written (hp : p.Valid) (hplain : p.isCdata = false) : '<' ∉ p.written := by
  have hdigits : ∀ {isDigit : Char → Bool} {mark digits : List Char}, '<' ∉ mark → isDigit '<' = false →
      (∀ d ∈ digits, isDigit d = true) → '<' ∉ mark ++ digits ++ [';'] := by
    intro isDigit mark digits hmark hbracket hall hmem
    rcases List.mem_append.mp hmem with hmem | hmem
    · rcases List.mem_append.mp hmem with hmem | hmem
      · exact hmark hmem
      · rw [hall _ hmem] at hbracket
        cases hbracket
    · exact absurd (List.mem_singleton.mp hmem) (by decide)
  cases p with
  | cdata chars => cases hplain
  | plain c => exact fun hmem => hp.1 (List.mem_singleton.mp hmem).symm
  | named c =>
    have hc : c ∈ ['<', '>', '"', '\'', '&'] := hp
    simp only [List.mem_cons, List.not_mem_nil, or_false] at hc
    rcases hc with rfl | rfl | rfl | rfl | rfl
    all_goals decide
  | decimal digits => exact hdigits (by decide) rfl hp.2
  | hex digits => exact hdigits (by decide) rfl hp.2

theorem written_spelled (pieces : List Piece) : written (pieces.map Piece.token) = spelled pieces := by
  induction pieces with
  | nil => rfl
  | cons p pieces ih =>
    rw [List.map_cons, written_cons, ih, spelled_cons]
    cases p with
    | plain c => rfl
    | named c => rfl
    | decimal digits => rfl
    | hex digits => rfl
    | cdata chars => rfl

theorem valid_token (hp : p.Valid) : p.token.Valid := by
  cases p with
  | cdata chars => exact hp
  | plain c => exact notMem_written hp rfl
  | named c => exact notMem_written hp rfl
  | decimal digits => exact notMem_written hp rfl
  | hex digits => exact notMem_written hp rfl

theorem written_ne_nil (p : Piece) : p.written ≠ [] := by
  cases p with
  | plain c => exact List.cons_ne_nil _ _
  | named c => exact List.cons_ne_nil _ _
  | decimal digits => exact List.cons_ne_nil _ _
  | hex digits => exact List.cons_ne_nil _ _
  | cdata chars => exact List.cons_ne_nil _ _

/-- Pieces up to the first CDATA section. -/
theorem exists_run (pieces : List Piece) : (∀ p ∈ pieces, p.isCdata = false) ∨
    ∃ run chars after, pieces = run ++ .cdata chars :: after ∧ ∀ p ∈ run, p.isCdata = false := by
  induction pieces with
  | nil => exact Or.inl fun p hp => absurd hp List.not_mem_nil
  | cons p pieces ih =>
    cases hp : p.isCdata with
    | true =>
      cases p with
      | cdata chars => exact Or.inr ⟨[], chars, pieces, rfl, fun p hp => absurd hp List.not_mem_nil⟩
      | plain c => cases hp
      | named c => cases hp
      | decimal digits => cases hp
      | hex digits => cases hp
    | false =>
      rcases ih with hall | ⟨run, chars, after, rfl, hrun⟩
      · refine Or.inl fun p' hp' => ?_
        rcases List.mem_cons.mp hp' with rfl | hp'
        · exact hp
        · exact hall p' hp'
      · refine Or.inr ⟨p :: run, chars, after, rfl, fun p' hp' => ?_⟩
        rcases List.mem_cons.mp hp' with rfl | hp'
        · exact hp
        · exact hrun p' hp'

/-- Nothing starts a section in pieces that are none. -/
theorem scan_run (hrun : ∀ p ∈ pieces, p.Valid ∧ p.isCdata = false) (i : ℕ) :
    scan (fun _ => literal cdataStart) i (spelled pieces ++ rest) =
      scan (fun _ => literal cdataStart) (i + (spelled pieces).length) rest := by
  have hplain : '<' ∉ spelled pieces := by
    intro hmem
    obtain ⟨p, hp, hmem⟩ := List.mem_flatMap.mp hmem
    exact notMem_written (hrun p hp).1 (hrun p hp).2 hmem
  refine scan_append fun x y hxy hy => ?_
  obtain ⟨c, y, rfl⟩ := List.exists_cons_of_ne_nil hy
  refine markup_cdataStart.cons c (y ++ rest) ?_
  rintro rfl
  exact hplain (hxy ▸ List.mem_append_right x List.mem_cons_self)

theorem decodeTextFrom_spelled {fuel : ℕ} {before : List Char} (hpieces : ∀ p ∈ pieces, p.Valid)
    (hfuel : (spelled pieces).length ≤ fuel) :
    decodeTextFrom (before ++ spelled pieces) fuel before.length = meant pieces := by
  induction fuel generalizing pieces before with
  | zero =>
    cases pieces with
    | nil => rfl
    | cons p pieces =>
      have hpos := List.length_pos_iff.mpr (written_ne_nil p)
      rw [spelled_cons, List.length_append] at hfuel
      omega
  | succ fuel ih =>
    rw [decodeTextFrom]
    by_cases hempty : spelled pieces = []
    · cases pieces with
      | nil => rw [if_neg (by rw [spelled_nil, List.append_nil]; exact Nat.lt_irrefl _)]; rfl
      | cons p pieces => exact absurd (List.append_eq_nil_iff.mp hempty).1 (written_ne_nil p)
    · have hlt : before.length < (before ++ spelled pieces).length := by
        rw [List.length_append]
        exact Nat.lt_add_of_pos_right (List.length_pos_iff.mpr hempty)
      rw [if_pos hlt, indexOf_of_append]
      rcases exists_run pieces with hall | ⟨run, chars, after, rfl, hrun⟩
      · have hrun : ∀ p ∈ pieces, p.Valid ∧ p.isCdata = false := fun p hp => ⟨hpieces p hp, hall p hp⟩
        have hnone : scan (fun _ => literal cdataStart) before.length (spelled pieces) = none := by
          rw [← List.append_nil (spelled pieces), scan_run hrun]
          rfl
        rw [hnone, Option.map_none]
        dsimp only
        rw [List.drop_left, decodeEntities_spelled hrun]
      · have hplain : ∀ p ∈ run, p.Valid ∧ p.isCdata = false := fun p hp =>
          ⟨hpieces p (List.mem_append_left _ hp), hrun p hp⟩
        have hafter : ∀ p ∈ after, p.Valid := fun p hp =>
          hpieces p (List.mem_append_right _ (List.mem_cons_of_mem _ hp))
        have hchars : (Token.cdata chars).Valid :=
          hpieces (.cdata chars) (List.mem_append_right _ List.mem_cons_self)
        have hwhole : spelled (run ++ .cdata chars :: after) =
            spelled run ++ (cdataStart ++ (chars ++ cdataEnd ++ spelled after)) := by
          rw [spelled_append, spelled_cons, Piece.written]
          simp only [List.append_assoc]
        have hopen : scan (fun _ => literal cdataStart) before.length (spelled (run ++ .cdata chars :: after)) =
            some (before.length + (spelled run).length, 9) := by
          rw [hwhole, scan_run hplain]
          exact scan_of_some (literal_append cdataStart _)
        have hparts : before ++ spelled (run ++ .cdata chars :: after) =
            (before ++ spelled run ++ cdataStart) ++ chars ++ (cdataEnd ++ spelled after) := by
          rw [hwhole]
          simp only [List.append_assoc]
        have hstart : before.length + (spelled run).length + 9 = (before ++ spelled run ++ cdataStart).length := by
          rw [List.length_append, List.length_append]
          rfl
        have hstop : (before ++ spelled run ++ cdataStart).length + chars.length + 3 =
            ((before ++ spelled run ++ cdataStart) ++ chars ++ cdataEnd).length := by
          simp only [List.length_append]
          rfl
        have hclose : indexOf cdataEnd (before ++ spelled (run ++ .cdata chars :: after))
            (before ++ spelled run ++ cdataStart).length =
              some ((before ++ spelled run ++ cdataStart).length + chars.length) := by
          rw [hparts, List.append_assoc _ chars, ← List.append_assoc chars, indexOf_of_append,
            indexOf_cdataEnd hchars, Option.map_some]
        have hfirst : slice (before ++ spelled (run ++ .cdata chars :: after)) before.length
            (before.length + (spelled run).length) = spelled run := by
          rw [hwhole, ← List.append_assoc, slice_append]
        have hsecond : slice (before ++ spelled (run ++ .cdata chars :: after))
            (before ++ spelled run ++ cdataStart).length
              ((before ++ spelled run ++ cdataStart).length + chars.length) = chars := by
          rw [hparts, slice_append]
        have hshorter : (spelled after).length ≤ fuel := by
          have hlength := congrArg List.length hwhole
          rw [List.length_append, List.length_append, List.length_append, List.length_append] at hlength
          have hnine : cdataStart.length = 9 := rfl
          omega
        have hrest : decodeTextFrom (before ++ spelled (run ++ .cdata chars :: after)) fuel
            ((before ++ spelled run ++ cdataStart).length + chars.length + 3) = meant after := by
          rw [hparts, ← List.append_assoc, hstop, ih hafter hshorter]
        rw [hopen, Option.map_some]
        dsimp only
        rw [hfirst, hstart, hclose]
        dsimp only
        rw [hsecond, hrest, decodeEntities_spelled hplain, meant_append, meant_cons, Piece.value]

/-! ### White space -/

/-- Neither end is white space. -/
def Trimmed (text : List Char) : Prop :=
  text.head?.all (fun c => !isSpace c) = true ∧ text.getLast?.all (fun c => !isSpace c) = true

instance : DecidablePred Trimmed := fun _ => inferInstanceAs (Decidable (_ ∧ _))

theorem dropWhile_append {left : List Char} (hleft : ∀ c ∈ left, isSpace c = true)
    (htext : text.head?.all (fun c => !isSpace c) = true) (h : text = [] → rest = []) :
    (left ++ (text ++ rest)).dropWhile isSpace = text ++ rest := by
  rw [List.dropWhile_append_of_pos hleft]
  cases text with
  | nil => rw [h rfl, List.append_nil, List.dropWhile_nil]
  | cons c text =>
    have hc : isSpace c = false := by
      rw [List.head?_cons, Option.all_some, Bool.not_eq_true'] at htext
      exact htext
    rw [List.cons_append, List.dropWhile_cons_of_neg (by rw [hc]; exact Bool.false_ne_true)]

theorem trim_append {left right : List Char} (hleft : ∀ c ∈ left, isSpace c = true)
    (hright : ∀ c ∈ right, isSpace c = true) (htext : Trimmed text) : trim (left ++ text ++ right) = text := by
  by_cases hnil : text = []
  · have hall : ∀ c ∈ left ++ right, isSpace c = true := fun c hc => (List.mem_append.mp hc).elim (hleft c) (hright c)
    rw [hnil, List.append_nil, trim, List.dropWhile_eq_nil_iff.mpr hall, List.rdropWhile_nil]
  · have hlast : (text.reverse).head?.all (fun c => !isSpace c) = true := by
      rw [List.head?_reverse]
      exact htext.2
    have hback : ∀ c ∈ right.reverse, isSpace c = true := fun c hc => hright c (List.mem_reverse.mp hc)
    rw [trim, List.append_assoc, dropWhile_append hleft htext.1 fun h => absurd h hnil, List.rdropWhile,
      List.reverse_append, ← List.append_nil text.reverse, dropWhile_append hback hlast fun _ => rfl, List.append_nil,
      List.reverse_reverse]

/-- Whatever its spelling and the white space around it, the text that was meant is read. -/
theorem decodeText_spelled {left right : List Char} (hleft : ∀ c ∈ left, isSpace c = true)
    (hright : ∀ c ∈ right, isSpace c = true) (hpieces : ∀ p ∈ pieces, p.Valid) (htrimmed : Trimmed (spelled pieces)) :
    decodeText (left ++ spelled pieces ++ right) = meant pieces := by
  rw [decodeText, trim_append hleft hright htrimmed]
  have hall : decodeTextFrom ([] ++ spelled pieces) (spelled pieces).length ([] : List Char).length = meant pieces :=
    decodeTextFrom_spelled hpieces le_rfl
  exact hall

end

end Arald.Feeds
