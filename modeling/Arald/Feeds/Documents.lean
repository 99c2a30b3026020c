import Arald.Feeds.CdataScan

/-!
# Documents of tags, text and CDATA sections

A document is written as one text. The scanner that works on the text finds the same contents and
blocks as one that walks over the tags and never looks into text or CDATA sections.
-/

namespace Arald.Feeds

open Foundations Scanning

/-- A tag is given without its brackets. -/
inductive Token
  | tag (body : List Char)
  | text (chars : List Char)
  | cdata (chars : List Char)

def Token.written : Token → List Char
  | .tag body => '<' :: body ++ ['>']
  | .text chars => chars
  | .cdata chars => cdataStart ++ chars ++ cdataEnd

/-- What can be told apart from the rest of a document. -/
def Token.Valid : Token → Prop
  | .tag body => '<' ∉ body ∧ '>' ∉ body ∧ ¬"![CDATA[".toList <+: body
  | .text chars => '<' ∉ chars
  | .cdata chars => ¬cdataEnd <:+: chars

def written (doc : List Token) : List Char := doc.flatMap Token.written

/-- A name as the scanner takes it. -/
structure IsName (tag : List Char) : Prop where
  noSpace : ∀ c ∈ tag, isSpace c = false
  noBracket : '<' ∉ tag ∧ '>' ∉ tag
  noSlash : tag.head? ≠ some '/'

/-- A tag that opens an element of the name, with attributes or without. -/
def opensTag (tag body : List Char) : Bool :=
  match afterWord tag body with
  | none => false
  | some rest => rest.head?.all isSpace

def closesTag (tag body : List Char) : Bool := body.map Char.toLower = ('/' :: tag).map Char.toLower

/-- What comes before the first tag of a kind, the tag, and what comes after it. -/
def splitTag (p : List Char → Bool) : List Token → Option (List Token × List Char × List Token)
  | [] => none
  | .tag body :: doc =>
    if p body then some ([], body, doc)
    else (splitTag p doc).map fun found => (.tag body :: found.1, found.2)
  | .text chars :: doc => (splitTag p doc).map fun found => (.text chars :: found.1, found.2)
  | .cdata chars :: doc => (splitTag p doc).map fun found => (.cdata chars :: found.1, found.2)

/-- The content of the first element. -/
def contentOf (tag : List Char) (doc : List Token) : Option (List Token) :=
  (splitTag (opensTag tag) doc).bind fun opening => (splitTag (closesTag tag) opening.2.2).map Prod.fst

def blocksOf (tag : List Char) : ℕ → List Token → List (List Token)
  | 0, _ => []
  | fuel + 1, doc =>
    match splitTag (opensTag tag) doc with
    | none => []
    | some (_, opening, rest) =>
      match splitTag (closesTag tag) rest with
      | none => []
      | some (inner, closing, rest) => (.tag opening :: inner ++ [.tag closing]) :: blocksOf tag fuel rest

/-- The positions of the CDATA sections. -/
def spansOf : ℕ → List Token → List (ℕ × ℕ)
  | _, [] => []
  | i, .cdata chars :: doc => (i, i + (chars.length + 12)) :: spansOf (i + (chars.length + 12)) doc
  | i, t :: doc => spansOf (i + t.written.length) doc

section
variable {β : Type*} {c d : Char} {tag body rest text word : List Char} {t : Token} {doc before after : List Token}
  {re : List Char → Option β} {p : List Char → Bool} {i : ℕ}

/-! ### Letters -/

theorem toLower_eq_iff (hd : d.isAlpha = false) : c.toLower = d ↔ c = d := by
  have hkeep : c.isAlpha = false → c.toLower = c := by
    intro hc
    refine Char.toLower_eq_of_not_isUpper fun hupper => ?_
    rw [Char.isAlpha, hupper, Bool.true_or] at hc
    cases hc
  constructor
  · intro h
    have hc : c.isAlpha = false := by rw [← Char.isAlpha_toLower_eq_isAlpha, h, hd]
    exact (hkeep hc).symm.trans h
  · rintro rfl
    exact hkeep hd

/-! ### A word at a position -/

theorem afterWord_nil : afterWord [] text = some text := by
  rw [afterWord, List.length_nil, List.take_zero, if_pos rfl, List.drop_zero]

theorem afterWord_cons_nil : afterWord (d :: word) [] = none := by
  rw [afterWord, List.take_nil, if_neg (fun h => List.cons_ne_nil _ _ h.symm)]

theorem afterWord_cons : afterWord (d :: word) (c :: text) =
    if c.toLower = d.toLower then afterWord word text else none := by
  rw [afterWord, afterWord, ← ite_and, List.length_cons, List.drop_succ_cons]
  refine if_congr ?_ rfl rfl
  rw [List.take_succ_cons, List.map_cons, List.map_cons, List.cons.injEq]

theorem length_of_afterWord (h : afterWord word text = some rest) : text.length = word.length + rest.length := by
  rw [afterWord] at h
  split_ifs at h with hword
  obtain rfl := Option.some.inj h
  have hlength := congrArg List.length hword
  rw [List.length_map, List.length_map, List.length_take] at hlength
  rw [List.length_drop]
  omega

/-- A word does not reach beyond a bracket that it does not have. -/
theorem afterWord_bracket (hword : '>' ∉ word) : afterWord word (text ++ '>' :: rest) =
    (afterWord word text).map fun tail => tail ++ '>' :: rest := by
  induction word generalizing text with
  | nil => rw [afterWord_nil, afterWord_nil, Option.map_some]
  | cons d word ih =>
    obtain ⟨hd, hword⟩ := List.ne_and_not_mem_of_not_mem_cons hword
    cases text with
    | nil =>
      have hne : ¬('>'.toLower = d.toLower) := fun h => hd ((toLower_eq_iff rfl).mp h.symm).symm
      rw [List.nil_append, afterWord_cons, if_neg hne, afterWord_cons_nil, Option.map_none]
    | cons c text =>
      rw [List.cons_append, afterWord_cons, afterWord_cons, ih hword]
      split_ifs
      · rfl
      · rfl

/-- The whole of a text up to a bracket. -/
theorem afterWord_whole (hword : '>' ∉ word) (htext : '>' ∉ text) :
    afterWord (word ++ ['>']) (text ++ '>' :: rest) =
      if text.map Char.toLower = word.map Char.toLower then some rest else none := by
  induction word generalizing text with
  | nil =>
    cases text with
    | nil => rw [List.nil_append, List.nil_append, afterWord_cons, if_pos rfl, afterWord_nil, if_pos rfl]
    | cons c text =>
      have hne : ¬(c.toLower = '>'.toLower) := fun h =>
        (List.ne_and_not_mem_of_not_mem_cons htext).1 ((toLower_eq_iff rfl).mp h).symm
      rw [List.nil_append, List.cons_append, afterWord_cons, if_neg hne, List.map_cons, List.map_nil,
        if_neg (List.cons_ne_nil _ _)]
  | cons d word ih =>
    obtain ⟨hd, hword⟩ := List.ne_and_not_mem_of_not_mem_cons hword
    cases text with
    | nil =>
      have hne : ¬('>'.toLower = d.toLower) := fun h => hd ((toLower_eq_iff rfl).mp h.symm).symm
      rw [List.nil_append, List.cons_append, afterWord_cons, if_neg hne, List.map_cons, List.map_nil,
        if_neg (fun h => List.cons_ne_nil _ _ h.symm)]
    | cons c text =>
      rw [List.cons_append, List.cons_append, afterWord_cons,
        ih hword (List.ne_and_not_mem_of_not_mem_cons htext).2, ← ite_and]
      refine if_congr ?_ rfl rfl
      rw [List.map_cons, List.map_cons, List.cons.injEq]

/-! ### Regular expressions at a tag -/

/-- What is only recognised at a bracket. -/
structure Markup (re : List Char → Option β) : Prop where
  nil : re [] = none
  cons : ∀ c rest, c ≠ '<' → re (c :: rest) = none

theorem afterWord_of_ne (h : c ≠ '<') : afterWord ('<' :: word) (c :: text) = none := by
  have hne : ¬(c.toLower = '<'.toLower) := fun heq => h ((toLower_eq_iff rfl).mp heq)
  rw [afterWord_cons, if_neg hne]

theorem afterWord_bracket_cons : afterWord ('<' :: word) ('<' :: text) = afterWord word text := by
  rw [afterWord_cons, if_pos rfl]

theorem markup_openTag (tag : List Char) : Markup (openTag tag) := by
  refine ⟨?_, fun c rest h => ?_⟩
  · rw [openTag, afterWord_cons_nil]
  · rw [openTag, afterWord_of_ne h]

theorem markup_startTag (tag : List Char) : Markup (startTag tag) := by
  refine ⟨?_, fun c rest h => ?_⟩
  · rw [startTag, afterWord_cons_nil]
  · rw [startTag, afterWord_of_ne h]

theorem markup_closeTag (tag : List Char) : Markup (closeTag tag) := by
  refine ⟨?_, fun c rest h => ?_⟩
  · rw [closeTag, List.cons_append, afterWord_cons_nil, Option.map_none]
  · rw [closeTag, List.cons_append, afterWord_of_ne h, Option.map_none]

theorem markup_cdataStart : Markup (literal cdataStart) := by
  refine ⟨rfl, fun c rest h => if_neg fun hprefix => h ?_⟩
  exact (List.cons_prefix_cons.mp hprefix).1.symm

theorem written_tag_append : (Token.tag body).written ++ rest = '<' :: (body ++ '>' :: rest) := by
  rw [Token.written, List.cons_append, List.cons_append, List.append_assoc, List.singleton_append]

theorem head_bracket (h : '>' ∉ text) : ((text ++ '>' :: rest).head?.any fun c => c = '>' || isSpace c) =
    text.head?.all isSpace := by
  cases text with
  | nil => rfl
  | cons c text =>
    have hc : c ≠ '>' := (List.ne_and_not_mem_of_not_mem_cons h).1.symm
    simp [hc]

theorem notMem_of_afterWord (h : afterWord word text = some rest) (htext : c ∉ text) : c ∉ rest := by
  rw [afterWord] at h
  split_ifs at h
  rw [← Option.some.inj h]
  exact fun hmem => htext (List.mem_of_mem_drop hmem)

theorem openTag_tag (hname : IsName tag) (hbody : '>' ∉ body) : openTag tag ((Token.tag body).written ++ rest) =
    if opensTag tag body = true then some (body.length + 2) else none := by
  rw [written_tag_append, openTag, afterWord_bracket_cons, afterWord_bracket hname.noBracket.2, opensTag]
  cases hword : afterWord tag body with
  | none => rfl
  | some tail =>
    have htail := notMem_of_afterWord hword hbody
    rw [Option.map_some]
    dsimp only
    rw [head_bracket htail]
    refine if_congr Iff.rfl ?_ rfl
    have hindex : (tail ++ '>' :: rest).findIdx? (fun c => decide (c = '>')) = some tail.length := by
      rw [List.findIdx?_append, List.findIdx?_eq_none_iff.mpr fun c hc => ?_, Option.none_or]
      · rw [List.findIdx?_cons, if_pos (decide_eq_true rfl), Option.map_some, Nat.zero_add]
      · exact decide_eq_false fun heq => htail (heq ▸ hc)
    rw [toBracket, hindex, Option.map_some, length_of_afterWord hword]
    congr 1
    omega

theorem startTag_tag (hname : IsName tag) (hbody : '>' ∉ body) : startTag tag ((Token.tag body).written ++ rest) =
    if opensTag tag body = true then some (tag.length + 2) else none := by
  rw [written_tag_append, startTag, afterWord_bracket_cons, afterWord_bracket hname.noBracket.2, opensTag]
  cases hword : afterWord tag body with
  | none => rfl
  | some tail =>
    rw [Option.map_some]
    dsimp only
    rw [head_bracket (notMem_of_afterWord hword hbody)]

theorem closeTag_tag (hname : IsName tag) (hbody : '>' ∉ body) : closeTag tag ((Token.tag body).written ++ rest) =
    if closesTag tag body = true then some (tag.length + 3) else none := by
  have hslash : '>' ∉ '/' :: tag := by
    rw [List.mem_cons, not_or]
    exact ⟨by decide, hname.noBracket.2⟩
  rw [written_tag_append, closeTag, List.cons_append, afterWord_bracket_cons, afterWord_whole hslash hbody, closesTag]
  by_cases hcloses : body.map Char.toLower = ('/' :: tag).map Char.toLower
  · rw [if_pos hcloses, if_pos (decide_eq_true hcloses), Option.map_some]
  · rw [if_neg hcloses, if_neg (fun h => hcloses (of_decide_eq_true h)), Option.map_none]

/-- No section starts at a tag. -/
theorem literal_tag (h : (Token.tag body).Valid) : literal cdataStart ((Token.tag body).written ++ rest) = none := by
  refine if_neg fun hprefix => ?_
  rw [written_tag_append] at hprefix
  have hword : "![CDATA[".toList <+: body ++ '>' :: rest := (List.cons_prefix_cons.mp hprefix).2
  rcases List.prefix_or_prefix_of_prefix hword (List.prefix_append body ('>' :: rest)) with hshort | hlong
  · exact h.2.2 hshort
  · obtain ⟨tail, htail⟩ := hlong
    have hparts := hword
    rw [← htail, List.prefix_append_right_inj] at hparts
    cases tail with
    | nil =>
      rw [List.append_nil] at htail
      exact h.2.2 (htail ▸ List.prefix_rfl)
    | cons c tail =>
      have hc : c = '>' := (List.cons_prefix_cons.mp hparts).1
      have hmem : '>' ∈ "![CDATA[".toList := htail ▸ hc ▸ List.mem_append_right _ List.mem_cons_self
      exact absurd hmem (by decide)

/-! ### Sections of a document -/

@[simp] theorem written_nil : written [] = [] := rfl

@[simp] theorem written_cons (t : Token) (doc : List Token) : written (t :: doc) = t.written ++ written doc := rfl

@[simp] theorem written_append (doc after : List Token) : written (doc ++ after) = written doc ++ written after :=
  List.flatMap_append

theorem length_written_cdata (chars : List Char) : (Token.cdata chars).written.length = chars.length + 12 := by
  rw [Token.written, List.length_append, List.length_append]
  change 9 + chars.length + 3 = _
  omega

/-- The position is in the section that the token is. -/
def Token.span (i : ℕ) : Token → List (ℕ × ℕ)
  | .cdata chars => [(i, i + (chars.length + 12))]
  | _ => []

theorem spansOf_cons (i : ℕ) (t : Token) (doc : List Token) :
    spansOf i (t :: doc) = t.span i ++ spansOf (i + t.written.length) doc := by
  cases t with
  | tag body => rfl
  | text chars => rfl
  | cdata chars =>
    rw [length_written_cdata]
    rfl

theorem spansOf_append (i : ℕ) (doc after : List Token) :
    spansOf i (doc ++ after) = spansOf i doc ++ spansOf (i + (written doc).length) after := by
  induction doc generalizing i with
  | nil => rfl
  | cons t doc ih =>
    rw [List.cons_append, spansOf_cons, spansOf_cons, ih, written_cons, List.length_append, List.append_assoc,
      Nat.add_assoc]

theorem mem_span {s : ℕ × ℕ} (h : s ∈ t.span i) : s = (i, i + t.written.length) := by
  cases t with
  | tag body => cases h
  | text chars => cases h
  | cdata chars =>
    rw [length_written_cdata]
    exact List.mem_singleton.mp h

theorem mem_spansOf {s : ℕ × ℕ} (h : s ∈ spansOf i doc) : i ≤ s.1 ∧ s.2 ≤ i + (written doc).length := by
  induction doc generalizing i with
  | nil => cases h
  | cons t doc ih =>
    rw [spansOf_cons] at h
    rw [written_cons, List.length_append]
    rcases List.mem_append.mp h with h | h
    · rw [mem_span h]
      exact ⟨le_rfl, by omega⟩
    · obtain ⟨hlower, hupper⟩ := ih h
      exact ⟨by omega, by omega⟩

/-- Which positions of a token are in a section. -/
theorem inside_token (hlower : (written before).length ≤ i) (hupper : i < (written before).length + t.written.length) :
    Inside (spansOf 0 (before ++ t :: after)) i ↔ t.span (written before).length ≠ [] := by
  rw [spansOf_append, spansOf_cons, Nat.zero_add]
  constructor
  · rintro ⟨s, hs, hle, hlt⟩ hnil
    rw [hnil, List.nil_append] at hs
    rcases List.mem_append.mp hs with hs | hs
    · have hend := (mem_spansOf hs).2
      omega
    · have hstart := (mem_spansOf hs).1
      omega
  · intro hne
    obtain ⟨s, hs⟩ := List.exists_mem_of_ne_nil _ hne
    refine ⟨s, List.mem_append_right _ (List.mem_append_left _ hs), ?_⟩
    rw [mem_span hs]
    exact ⟨hlower, hupper⟩

/-- The end of a section is where it is first written. -/
theorem indexOf_cdataEnd {chars : List Char} (h : (Token.cdata chars).Valid) (i : ℕ) :
    scan (fun _ => literal cdataEnd) i (chars ++ cdataEnd ++ rest) = some (i + chars.length, 3) := by
  rw [List.append_assoc, scan_append fun x y hxy hy => ?_]
  · exact scan_of_some (literal_append cdataEnd rest)
  · refine if_neg fun hprefix => ?_
    match y, hy with
    | [a], _ =>
      have hthird : '>' = ']' := (List.cons_prefix_cons.mp (List.cons_prefix_cons.mp
        (List.cons_prefix_cons.mp hprefix).2).2).1
      exact absurd hthird (by decide)
    | [a, b], _ =>
      have hthird : '>' = ']' := (List.cons_prefix_cons.mp (List.cons_prefix_cons.mp
        (List.cons_prefix_cons.mp hprefix).2).2).1
      exact absurd hthird (by decide)
    | a :: b :: c :: y, _ =>
      have hwhole : cdataEnd <+: a :: b :: c :: y := by
        refine List.prefix_of_prefix_length_le hprefix (List.prefix_append _ _) ?_
        exact Nat.le_add_left 3 y.length
      exact h (hxy ▸ hwhole.isInfix.trans (List.suffix_append x _).isInfix)

/-- A scan for markup passes over text, and over a tag that it does not recognise. -/
theorem markup_of_token (hre : Markup re) (h : t.Valid) (hspan : t.span i = [])
    (htag : ∀ body, t = .tag body → re (t.written ++ rest) = none) {x y : List Char} (hxy : t.written = x ++ y)
    (hy : y ≠ []) : re (y ++ rest) = none := by
  have hplain : ∀ {chars : List Char}, '<' ∉ chars → y ⊆ chars → re (y ++ rest) = none := by
    intro chars hchars hsub
    obtain ⟨c, y, rfl⟩ := List.exists_cons_of_ne_nil hy
    exact hre.cons c (y ++ rest) fun hc => hchars (hc ▸ hsub List.mem_cons_self)
  cases t with
  | tag body =>
    cases x with
    | nil =>
      rw [List.nil_append] at hxy
      exact hxy ▸ htag body rfl
    | cons c x =>
      have htail : body ++ ['>'] = x ++ y := (List.cons.inj hxy).2
      have hchars : '<' ∉ body ++ ['>'] := by
        rw [List.mem_append, not_or]
        exact ⟨h.1, by decide⟩
      exact hplain hchars (htail ▸ List.subset_append_right x y)
  | text chars =>
    have htext : chars = x ++ y := hxy
    exact hplain h (htext ▸ List.subset_append_right x y)
  | cdata chars => cases hspan

theorem indexOf_written (word : List Char) (before doc : List Token) :
    indexOf word (written (before ++ doc)) (written before).length =
      (scan (fun _ => literal word) (written before).length (written doc)).map Prod.fst := by
  rw [written_append, indexOf_of_append]

theorem cdataSpansFrom_skip {xml : List Char} {fuel j : ℕ} (hij : i ≤ j) (hj : j ≤ xml.length)
    (hsame : indexOf cdataStart xml i = indexOf cdataStart xml j) :
    cdataSpansFrom xml fuel i = cdataSpansFrom xml fuel j := by
  cases fuel with
  | zero => rfl
  | succ fuel =>
    rw [cdataSpansFrom, cdataSpansFrom, hsame]
    by_cases hlt : j < xml.length
    · rw [if_pos hlt, if_pos (hij.trans_lt hlt)]
    · obtain rfl : j = xml.length := by omega
      have hnone : indexOf cdataStart xml xml.length = none := by
        rw [indexOf, exec, if_pos le_rfl, List.drop_length]
        rfl
      rw [hnone, if_neg hlt, ite_self]

theorem cdataSpansFrom_written {fuel : ℕ} (h : ∀ t ∈ doc, t.Valid) (hfuel : (written doc).length ≤ fuel) :
    cdataSpansFrom (written (before ++ doc)) fuel (written before).length =
      spansOf (written before).length doc := by
  induction doc generalizing before fuel with
  | nil =>
    rw [List.append_nil]
    cases fuel with
    | zero => rfl
    | succ fuel => rw [cdataSpansFrom, if_neg (Nat.lt_irrefl _), spansOf]
  | cons t doc ih =>
    have ht := h t List.mem_cons_self
    have hdoc : ∀ t ∈ doc, t.Valid := fun t' ht' => h t' (List.mem_cons_of_mem t ht')
    have hmoved : written (before ++ [t]) = written before ++ t.written := by
      rw [written_append, written_cons, written_nil, List.append_nil]
    have hsame : before ++ t :: doc = (before ++ [t]) ++ doc := by rw [List.append_assoc, List.singleton_append]
    rw [written_cons, List.length_append] at hfuel
    rw [spansOf_cons]
    by_cases hspan : t.span (written before).length = []
    · have hmarkup : indexOf cdataStart (written (before ++ t :: doc)) (written before).length =
          indexOf cdataStart (written ((before ++ [t]) ++ doc)) (written (before ++ [t])).length := by
        have htag : ∀ body, t = .tag body → literal cdataStart (t.written ++ written doc) = none := by
          rintro body rfl
          exact literal_tag ht
        rw [indexOf_written, indexOf_written, hmoved, written_cons, List.length_append,
          scan_append fun x y hxy hy => markup_of_token markup_cdataStart ht hspan htag hxy hy]
      rw [hspan, List.nil_append]
      have hih : cdataSpansFrom (written ((before ++ [t]) ++ doc)) fuel (written (before ++ [t])).length =
          spansOf (written (before ++ [t])).length doc := ih hdoc ((Nat.le_add_left _ _).trans hfuel)
      rw [hmoved, List.length_append] at hih
      rw [← hih, hsame]
      refine cdataSpansFrom_skip (Nat.le_add_right _ _) ?_ ?_
      · rw [written_append, hmoved, List.length_append, List.length_append]
        omega
      · rw [← hsame, hmarkup, hsame, hmoved, List.length_append]
    · cases t with
      | tag body => exact absurd rfl hspan
      | text chars => exact absurd rfl hspan
      | cdata chars =>
        rw [length_written_cdata] at hfuel ⊢
        obtain ⟨fuel, rfl⟩ : ∃ k, fuel = k + 1 := ⟨fuel - 1, by omega⟩
        have hlength : (written before).length < (written (before ++ Token.cdata chars :: doc)).length := by
          rw [written_append, written_cons, List.length_append, List.length_append, length_written_cdata]
          omega
        have hopen : indexOf cdataStart (written (before ++ Token.cdata chars :: doc)) (written before).length =
            some (written before).length := by
          rw [indexOf_written, written_cons, Token.written, List.append_assoc, List.append_assoc,
            scan_of_some (literal_append cdataStart _), Option.map_some]
        have hclose : indexOf cdataEnd (written (before ++ Token.cdata chars :: doc)) ((written before).length + 9) =
            some ((written before).length + 9 + chars.length) := by
          have hparts : written (before ++ Token.cdata chars :: doc) =
              (written before ++ cdataStart) ++ (chars ++ cdataEnd ++ written doc) := by
            rw [written_append, written_cons, Token.written]
            simp only [List.append_assoc]
          have hnine : (written before ++ cdataStart).length = (written before).length + 9 := by
            rw [List.length_append]
            rfl
          rw [hparts, ← hnine, indexOf_of_append, indexOf_cdataEnd ht, Option.map_some]
        rw [cdataSpansFrom, if_pos hlength, hopen]
        dsimp only
        rw [hclose]
        dsimp only
        have hih : cdataSpansFrom (written ((before ++ [Token.cdata chars]) ++ doc)) fuel
            (written (before ++ [Token.cdata chars])).length =
              spansOf (written (before ++ [Token.cdata chars])).length doc := ih hdoc (by omega)
        rw [hmoved, List.length_append, length_written_cdata] at hih
        rw [Token.span, List.singleton_append, ← hih, hsame]
        have hend : (written before).length + 9 + chars.length + 3 = (written before).length + (chars.length + 12) := by
          omega
        rw [hend]

theorem findCdataSpans_written (h : ∀ t ∈ doc, t.Valid) : findCdataSpans (written doc) = spansOf 0 doc := by
  have hall : cdataSpansFrom (written ([] ++ doc)) (written doc).length (written []).length =
      spansOf (written []).length doc := cdataSpansFrom_written h le_rfl
  exact hall

/-! ### Scans of a document -/

theorem ascending_spansOf (h : ∀ t ∈ doc, t.Valid) :
    Ascending (spansOf 0 doc) ∧ ∀ s ∈ spansOf 0 doc, s.2 ≤ (written doc).length := by
  obtain ⟨hascending, hbounds⟩ := cdataSpansFrom_spec (written doc) (written doc).length 0
  have hspans := findCdataSpans_written h
  rw [findCdataSpans] at hspans
  rw [← hspans]
  exact ⟨hascending, fun s hs => (hbounds s hs).2⟩

/-- What a regular expression recognises of a tag. -/
structure Recognises (re : List Char → Option β) (p : List Char → Bool) (f : List Char → β) : Prop where
  markup : Markup re
  tag : ∀ body rest, (Token.tag body).Valid →
    re ((Token.tag body).written ++ rest) = if p body = true then some (f body) else none

theorem recognises_openTag (h : IsName tag) :
    Recognises (openTag tag) (opensTag tag) fun body => body.length + 2 :=
  ⟨markup_openTag tag, fun _ _ hbody => openTag_tag h hbody.2.1⟩

theorem recognises_startTag (h : IsName tag) :
    Recognises (startTag tag) (opensTag tag) fun _ => tag.length + 2 :=
  ⟨markup_startTag tag, fun _ _ hbody => startTag_tag h hbody.2.1⟩

theorem recognises_closeTag (h : IsName tag) :
    Recognises (closeTag tag) (closesTag tag) fun _ => tag.length + 3 :=
  ⟨markup_closeTag tag, fun _ _ hbody => closeTag_tag h hbody.2.1⟩

/-- A scan outside the sections stops at the first tag of its kind. -/
theorem scan_written {f : List Char → β} (hre : Recognises re p f) (h : ∀ t ∈ doc, t.Valid) :
    scan (outside (spansOf 0 (before ++ doc)) re) (written before).length (written doc) =
      (splitTag p doc).map fun found => ((written before).length + (written found.1).length, f found.2.1) := by
  induction doc generalizing before with
  | nil =>
    rw [written_nil, scan, outside, hre.markup.nil, ite_self]
    rfl
  | cons t doc ih =>
    have ht := h t List.mem_cons_self
    have hdoc : ∀ t ∈ doc, t.Valid := fun t' ht' => h t' (List.mem_cons_of_mem t ht')
    have hsame : before ++ t :: doc = (before ++ [t]) ++ doc := by rw [List.append_assoc, List.singleton_append]
    have hmoved : (written (before ++ [t])).length = (written before).length + t.written.length := by
      rw [written_append, written_cons, written_nil, List.append_nil, List.length_append]
    have hskip : (∀ x y, t.written = x ++ y → y ≠ [] →
        outside (spansOf 0 (before ++ t :: doc)) re ((written before).length + x.length) (y ++ written doc) = none) →
          scan (outside (spansOf 0 (before ++ t :: doc)) re) (written before).length (written (t :: doc)) =
            (splitTag p doc).map fun found =>
              ((written before).length + (written (t :: found.1)).length, f found.2.1) := by
      intro hnone
      rw [written_cons, scan_append hnone, ← hmoved, hsame, ih hdoc, hmoved]
      congr 1
      funext found
      rw [written_cons, List.length_append, Nat.add_assoc]
    cases t with
    | text chars =>
      have htag : ∀ body, Token.text chars = .tag body → re ((Token.text chars).written ++ written doc) = none := by
        intro body hbody
        cases hbody
      rw [splitTag, Option.map_map]
      refine hskip fun x y hxy hy => ?_
      rw [outside, markup_of_token (i := 0) hre.markup ht rfl htag hxy hy, ite_self]
    | cdata chars =>
      rw [splitTag, Option.map_map]
      refine hskip fun x y hxy hy => if_pos ?_
      have hlength := congrArg List.length hxy
      rw [List.length_append] at hlength
      have hpos := List.length_pos_iff.mpr hy
      exact (inside_token (Nat.le_add_right _ _) (by omega)).mpr (List.cons_ne_nil _ _)
    | tag body =>
      have hpos : 0 < (Token.tag body).written.length := Nat.succ_pos _
      have hout : ¬Inside (spansOf 0 (before ++ Token.tag body :: doc)) (written before).length := fun hin =>
        (inside_token le_rfl (Nat.lt_add_of_pos_right hpos)).mp hin rfl
      rw [splitTag]
      split_ifs with hp
      · have hfound : outside (spansOf 0 (before ++ Token.tag body :: doc)) re (written before).length
            ((Token.tag body).written ++ written doc) = some (f body) := by
          rw [outside, if_neg hout, hre.tag body _ ht, if_pos hp]
        rw [written_cons, scan_of_some hfound]
        rfl
      · have htag : ∀ body', Token.tag body = .tag body' → re ((Token.tag body).written ++ written doc) = none := by
          rintro body' -
          rw [hre.tag body _ ht, if_neg hp]
        rw [Option.map_map]
        refine hskip fun x y hxy hy => ?_
        rw [outside, markup_of_token (i := 0) hre.markup ht rfl htag hxy hy, ite_self]

theorem splitTag_some {body : List Char} (h : splitTag p doc = some (before, body, after)) :
    doc = before ++ .tag body :: after ∧ p body = true := by
  induction doc generalizing before with
  | nil => cases h
  | cons t doc ih =>
    have hlater : (splitTag p doc).map (fun found => (t :: found.1, found.2)) = some (before, body, after) →
        t :: doc = before ++ .tag body :: after ∧ p body = true := by
      intro hsome
      obtain ⟨⟨x, found⟩, hfound, heq⟩ := Option.map_eq_some_iff.mp hsome
      obtain ⟨rfl, rfl⟩ := Prod.mk.inj heq
      obtain ⟨hdoc, hp⟩ := ih hfound
      exact ⟨by rw [hdoc, List.cons_append], hp⟩
    cases t with
    | text chars => exact hlater h
    | cdata chars => exact hlater h
    | tag found =>
      rw [splitTag] at h
      split_ifs at h with hp
      · obtain ⟨rfl, heq⟩ := Prod.mk.inj (Option.some.inj h)
        obtain ⟨rfl, rfl⟩ := Prod.mk.inj heq
        exact ⟨rfl, hp⟩
      · exact hlater h

theorem exec_written {f : List Char → β} (hre : Recognises re p f) (before doc : List Token) (h : ∀ t ∈ before ++ doc, t.Valid) :
    execOutsideCdata re (written (before ++ doc)) (findCdataSpans (written (before ++ doc))) (written before).length =
      (splitTag p doc).map fun found => ((written before).length + (written found.1).length, f found.2.1) := by
  obtain ⟨hascending, hbounds⟩ := ascending_spansOf h
  rw [findCdataSpans_written h, execOutsideCdata_eq re hascending hbounds, written_append, List.drop_left]
  · exact scan_written hre fun t ht => h t (List.mem_append_right _ ht)
  · rw [written_append, List.length_append]
    exact Nat.le_add_right _ _

theorem slice_append (a b c : List Char) : slice (a ++ b ++ c) a.length (a.length + b.length) = b := by
  rw [slice, ← List.length_append, List.take_left, List.drop_left]

theorem length_written_tag (body : List Char) : (Token.tag body).written.length = body.length + 2 := by
  rw [Token.written, List.length_append, List.length_cons]
  rfl

/-- The closing tag after some part of a document. -/
theorem findClosingTag_written (hname : IsName tag) (before doc : List Token) (h : ∀ t ∈ before ++ doc, t.Valid) :
    findClosingTag (written (before ++ doc)) (written before).length tag (findCdataSpans (written (before ++ doc))) =
      (splitTag (closesTag tag) doc).map fun found => (written before).length + (written found.1).length := by
  rw [findClosingTag, exec_written (recognises_closeTag hname) before doc h, Option.map_map]
  rfl

theorem exec_openTag (hname : IsName tag) (before doc : List Token) (h : ∀ t ∈ before ++ doc, t.Valid) :
    execOutsideCdata (openTag tag) (written (before ++ doc)) (findCdataSpans (written (before ++ doc)))
      (written before).length =
        (splitTag (opensTag tag) doc).map fun found =>
          ((written before).length + (written found.1).length, found.2.1.length + 2) :=
  exec_written (recognises_openTag hname) before doc h

/-- The content of an element in the text is that of the element in the document. -/
theorem extractTagContent_written (hname : IsName tag) (h : ∀ t ∈ doc, t.Valid) :
    extractTagContent (written doc) tag = (contentOf tag doc).map written := by
  have hopen : execOutsideCdata (openTag tag) (written doc) (findCdataSpans (written doc)) 0 =
      (splitTag (opensTag tag) doc).map fun found =>
        ((written []).length + (written found.1).length, found.2.1.length + 2) := exec_openTag hname [] doc h
  rw [extractTagContent, contentOf]
  dsimp only
  rw [hopen]
  cases hsplit : splitTag (opensTag tag) doc with
  | none => rfl
  | some found =>
    obtain ⟨x, body, rest⟩ := found
    obtain ⟨hdoc, -⟩ := splitTag_some hsplit
    have hparts : doc = (x ++ [.tag body]) ++ rest := by rw [hdoc, List.append_assoc, List.singleton_append]
    have hstart : (written []).length + (written x).length + (body.length + 2) =
        (written (x ++ [.tag body])).length := by
      rw [written_nil, List.length_nil, Nat.zero_add, written_append, written_cons, written_nil, List.append_nil,
        List.length_append, length_written_tag]
    rw [Option.map_some, Option.bind_some]
    dsimp only
    rw [hstart, hparts, findClosingTag_written hname _ _ (hparts ▸ h), Option.map_map, Option.map_map]
    cases hclose : splitTag (closesTag tag) rest with
    | none => rfl
    | some found =>
      obtain ⟨inner, closing, rest'⟩ := found
      obtain ⟨rfl, -⟩ := splitTag_some hclose
      rw [Option.map_some, Option.map_some, Function.comp_apply, Function.comp_apply, written_append (x ++ [_]),
        written_append inner, ← List.append_assoc, slice_append]

/-- The blocks in the text are those in the document. -/
theorem blocksFrom_written (hname : IsName tag) {fuel : ℕ} (h : ∀ t ∈ before ++ doc, t.Valid) :
    blocksFrom (written (before ++ doc)) tag (findCdataSpans (written (before ++ doc))) fuel (written before).length =
      (blocksOf tag fuel doc).map written := by
  induction fuel generalizing before doc with
  | zero => rfl
  | succ fuel ih =>
    rw [blocksFrom, blocksOf, exec_openTag hname before doc h]
    cases hsplit : splitTag (opensTag tag) doc with
    | none => rfl
    | some found =>
      obtain ⟨x, body, rest⟩ := found
      obtain ⟨rfl, -⟩ := splitTag_some hsplit
      have hparts : before ++ (x ++ .tag body :: rest) = (before ++ x ++ [.tag body]) ++ rest := by
        simp only [List.append_assoc, List.singleton_append]
      have hstart : (written before).length + (written x).length + (body.length + 2) =
          (written (before ++ x ++ [.tag body])).length := by
        rw [written_append, written_append, written_cons, written_nil, List.append_nil, List.length_append,
          List.length_append, length_written_tag]
      rw [Option.map_some]
      dsimp only
      rw [hstart, hparts, findClosingTag_written hname _ _ (hparts ▸ h)]
      cases hclose : splitTag (closesTag tag) rest with
      | none => rfl
      | some found =>
        obtain ⟨inner, closing, rest'⟩ := found
        obtain ⟨rfl, hcloses⟩ := splitTag_some hclose
        have hclosing : tag.length + 3 = (Token.tag closing).written.length := by
          have hlength := congrArg List.length (of_decide_eq_true hcloses)
          rw [List.length_map, List.length_map, List.length_cons] at hlength
          rw [length_written_tag, hlength]
        have hblock : (before ++ x ++ [Token.tag body]) ++ (inner ++ .tag closing :: rest') =
            (before ++ x ++ (Token.tag body :: inner ++ [.tag closing])) ++ rest' := by
          simp only [List.append_assoc, List.cons_append, List.nil_append]
        have hfirst : (written before).length + (written x).length = (written (before ++ x)).length := by
          rw [written_append, List.length_append]
        have hlast : (written (before ++ x ++ [.tag body])).length + (written inner).length + (tag.length + 3) =
            (written (before ++ x)).length + (written (Token.tag body :: inner ++ [.tag closing])).length := by
          rw [hclosing]
          simp only [written_append, written_cons, written_nil, List.length_append, List.length_nil]
          omega
        have hend : (written (before ++ x)).length + (written (Token.tag body :: inner ++ [.tag closing])).length =
            (written (before ++ x ++ (Token.tag body :: inner ++ [.tag closing]))).length := by
          rw [written_append (before ++ x), List.length_append]
        rw [Option.map_some]
        dsimp only
        rw [hfirst, hlast, hblock, List.map_cons]
        congr 1
        · rw [written_append _ rest', written_append (before ++ x), slice_append]
        · rw [hend, ih fun t ht => h t (by rw [hparts, hblock]; exact ht)]

theorem matchAllTagBlocks_written (hname : IsName tag) (h : ∀ t ∈ doc, t.Valid) :
    matchAllTagBlocks (written doc) tag = (blocksOf tag ((written doc).length + 1) doc).map written := by
  have hall : ∀ t ∈ [] ++ doc, t.Valid := h
  exact blocksFrom_written hname hall

/-- What comes before the first element of a name. -/
theorem feedLevelSection_written (hname : IsName tag) (h : ∀ t ∈ doc, t.Valid) :
    feedLevelSection (written doc) tag = written (((splitTag (opensTag tag) doc).map Prod.fst).getD doc) := by
  have hstart : execOutsideCdata (startTag tag) (written doc) (findCdataSpans (written doc)) 0 =
      (splitTag (opensTag tag) doc).map fun found =>
        ((written []).length + (written found.1).length, tag.length + 2) :=
    exec_written (recognises_startTag hname) [] doc h
  rw [feedLevelSection, hstart]
  cases hsplit : splitTag (opensTag tag) doc with
  | none => rfl
  | some found =>
    obtain ⟨x, body, rest⟩ := found
    obtain ⟨rfl, -⟩ := splitTag_some hsplit
    rw [Option.map_some, Option.map_some, Option.getD_some]
    dsimp only
    rw [written_nil, List.length_nil, Nat.zero_add, written_append, List.take_left]

end

end Arald.Feeds
