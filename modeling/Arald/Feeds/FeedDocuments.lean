import Arald.Feeds.Spellings

/-!
# RSS documents

An RSS document has leaves and items in a channel. The parser reads of the text what can be read off
the document: the first leaf of each name, and nothing at all if one item lacks what it needs.
-/

namespace Arald.Feeds

open Foundations Scanning

/-- An element whose content is text, and the text after it. -/
structure Leaf where
  name : List Char
  attributes : List Char
  left : List Char
  pieces : List Piece
  right : List Char
  gap : List Char

structure Item where
  attributes : List Char
  gap : List Char
  leaves : List Leaf
  after : List Char

structure Channel where
  prolog : List Token
  attributes : List Char
  gap : List Char
  leaves : List Leaf
  items : List Item
  epilog : List Token

/-- Names are the same up to the case of letters. -/
def sameName (a b : List Char) : Bool := a.map Char.toLower = b.map Char.toLower

/-! ### Documents as tokens -/

namespace Leaf

def content (l : Leaf) : List Token := .text l.left :: l.pieces.map Piece.token ++ [.text l.right]

def tokens (l : Leaf) : List Token :=
  .tag (l.name ++ l.attributes) :: l.content ++ [.tag ('/' :: l.name), .text l.gap]

def text (l : Leaf) : List Char := meant l.pieces

end Leaf

def leavesTokens (leaves : List Leaf) : List Token := leaves.flatMap Leaf.tokens

namespace Item

/-- From the opening tag to the closing tag. -/
def block (item : Item) : List Token :=
  .tag ("item".toList ++ item.attributes) :: .text item.gap :: leavesTokens item.leaves ++ [.tag "/item".toList]

def tokens (item : Item) : List Token := item.block ++ [.text item.after]

end Item

namespace Channel

def body (ch : Channel) : List Token := .text ch.gap :: leavesTokens ch.leaves ++ ch.items.flatMap Item.tokens

def tokens (ch : Channel) : List Token :=
  ch.prolog ++ .tag ("channel".toList ++ ch.attributes) :: ch.body ++ .tag "/channel".toList :: ch.epilog

def written (ch : Channel) : String := .ofList (Feeds.written ch.tokens)

end Channel

/-! ### Well-formed documents -/

structure ValidAttributes (attributes : List Char) : Prop where
  noBracket : '<' ∉ attributes ∧ '>' ∉ attributes
  space : attributes.head?.all isSpace = true

structure Leaf.Valid (l : Leaf) : Prop where
  name : IsName l.name
  name_ne_nil : l.name ≠ []
  noBang : l.name.head? ≠ some '!'
  other : sameName "item".toList l.name = false ∧ sameName "channel".toList l.name = false
  attributes : ValidAttributes l.attributes
  left : ∀ c ∈ l.left, isSpace c = true
  right : ∀ c ∈ l.right, isSpace c = true
  gap : '<' ∉ l.gap
  pieces : ∀ p ∈ l.pieces, p.Valid
  trimmed : Trimmed (spelled l.pieces)

structure Item.Valid (item : Item) : Prop where
  attributes : ValidAttributes item.attributes
  gap : '<' ∉ item.gap
  after : '<' ∉ item.after
  leaves : ∀ l ∈ item.leaves, l.Valid

structure Channel.Valid (ch : Channel) : Prop where
  prolog : ∀ t ∈ ch.prolog, t.Valid
  noChannel : splitTag (opensTag "channel".toList) ch.prolog = none
  attributes : ValidAttributes ch.attributes
  gap : '<' ∉ ch.gap
  leaves : ∀ l ∈ ch.leaves, l.Valid
  items : ∀ item ∈ ch.items, item.Valid
  epilog : ∀ t ∈ ch.epilog, t.Valid

/-! ### What is read off a document -/

def textOf (name : String) (leaves : List Leaf) : Option (List Char) :=
  (leaves.find? fun l => sameName name.toList l.name).map Leaf.text

def fieldOf (name : String) (leaves : List Leaf) : Option String :=
  (textOf name leaves).bind fun text => if text = [] then none else some (.ofList text)

def Item.read (dates : Dates) (item : Item) : Option FeedItem :=
  match fieldOf "title" item.leaves, (fieldOf "guid" item.leaves).or (fieldOf "link" item.leaves),
    fieldOf "link" item.leaves with
  | some title, some id, some link =>
    ((fieldOf "pubDate" item.leaves).bind (toIso dates)).map fun publishedAt =>
      { id, title, summary := .ofList ((textOf "description" item.leaves).getD []), link, publishedAt,
        updatedAt := none, category := fieldOf "category" item.leaves }
  | _, _, _ => none

def Channel.read (dates : Dates) (ch : Channel) : Option ParsedFeed :=
  ((ch.items.take maxItemsPerFeed).mapM (Item.read dates)).map fun items =>
    { source := .ofList ((textOf "title" ch.leaves).getD [])
      language := (textOf "language" ch.leaves).map .ofList
      items }

section
variable {name attributes body : List Char} {l : Leaf} {leaves : List Leaf} {item : Item} {items : List Item}
  {doc after : List Token} {p : List Char → Bool}

/-! ### Tags of a document -/

theorem splitTag_append (h : splitTag p doc = none) :
    splitTag p (doc ++ after) = (splitTag p after).map fun found => (doc ++ found.1, found.2) := by
  induction doc with
  | nil =>
    rw [List.nil_append]
    exact Option.map_id'.symm
  | cons t doc ih =>
    have hskip : (splitTag p doc).map (fun found => (t :: found.1, found.2)) = none →
        (splitTag p (doc ++ after)).map (fun found => (t :: found.1, found.2)) =
          (splitTag p after).map fun found => (t :: doc ++ found.1, found.2) := by
      intro hnone
      rw [ih (Option.map_eq_none_iff.mp hnone), Option.map_map]
      rfl
    cases t with
    | text chars => exact hskip h
    | cdata chars => exact hskip h
    | tag body =>
      rw [splitTag] at h
      rw [List.cons_append, splitTag]
      split_ifs at h ⊢
      exact hskip h

/-- Where no tag is of the kind, there is none to split at. -/
theorem splitTag_eq_none (h : ∀ body, .tag body ∈ doc → p body = false) : splitTag p doc = none := by
  induction doc with
  | nil => rfl
  | cons t doc ih =>
    have hdoc : splitTag p doc = none := ih fun body hbody => h body (List.mem_cons_of_mem t hbody)
    cases t with
    | text chars => rw [splitTag, hdoc, Option.map_none]
    | cdata chars => rw [splitTag, hdoc, Option.map_none]
    | tag body =>
      have hp := h body List.mem_cons_self
      rw [splitTag, if_neg (by rw [hp]; exact Bool.false_ne_true), hdoc, Option.map_none]

theorem isAlpha_of_isSpace {c : Char} (h : isSpace c = true) : c.isAlpha = false := by
  by_contra hne
  have hletter : 65 ≤ c.toNat ∧ c.toNat ≤ 122 := by
    have halpha : c.isAlpha = true := Bool.of_not_eq_false hne
    simp only [Char.isAlpha, Char.isUpper, Char.isLower, Bool.or_eq_true, Bool.and_eq_true, decide_eq_true_eq,
      UInt32.le_iff_toNat_le, ge_iff_le] at halpha
    have hA : 'A'.val.toNat = 65 := rfl
    have hZ : 'Z'.val.toNat = 90 := rfl
    have ha : 'a'.val.toNat = 97 := rfl
    have hz : 'z'.val.toNat = 122 := rfl
    have hc : c.val.toNat = c.toNat := rfl
    omega
  simp only [isSpace, List.mem_cons, List.not_mem_nil, Bool.or_eq_true, Bool.and_eq_true, decide_eq_true_eq,
    or_false] at h
  omega

theorem opensTag_append {tag : List Char} (htag : ∀ c ∈ tag, isSpace c = false) (hname : ∀ c ∈ name, isSpace c = false)
    (hattributes : attributes.head?.all isSpace = true) : opensTag tag (name ++ attributes) = sameName tag name := by
  induction tag generalizing name with
  | nil =>
    cases name with
    | nil => exact hattributes
    | cons c name => exact hname c List.mem_cons_self
  | cons d tag ih =>
    have hd := htag d List.mem_cons_self
    cases name with
    | nil =>
      cases attributes with
      | nil => rfl
      | cons c attributes =>
        have hspace : isSpace c = true := hattributes
        have hne : ¬(c.toLower = d.toLower) := by
          intro heq
          rw [(toLower_eq_iff (isAlpha_of_isSpace hspace)).mpr rfl] at heq
          rw [(toLower_eq_iff (isAlpha_of_isSpace hspace)).mp heq.symm, hspace] at hd
          cases hd
        rw [List.nil_append, opensTag, afterWord_cons, if_neg hne]
        rfl
    | cons c name =>
      have htail : opensTag tag (name ++ attributes) = sameName tag name :=
        ih (fun c hc => htag c (List.mem_cons_of_mem d hc)) fun c' hc => hname c' (List.mem_cons_of_mem c hc)
      rw [opensTag] at htail
      rw [List.cons_append, opensTag, afterWord_cons]
      by_cases hsame : c.toLower = d.toLower
      · rw [if_pos hsame, htail, sameName, sameName, List.map_cons, List.map_cons, hsame]
        simp
      · rw [if_neg hsame, sameName, List.map_cons, List.map_cons]
        simp [Ne.symm hsame]

theorem opensTag_slash {tag : List Char} (htag : tag.head? ≠ some '/') : opensTag tag ('/' :: body) = false := by
  cases tag with
  | nil => rfl
  | cons d tag =>
    have hne : ¬('/'.toLower = d.toLower) := fun heq =>
      htag (congrArg some ((toLower_eq_iff rfl).mp heq.symm))
    rw [opensTag, afterWord_cons, if_neg hne]

theorem closesTag_slash (tag : List Char) : closesTag tag ('/' :: body) = sameName tag body := by
  rw [closesTag, sameName, List.map_cons, List.map_cons]
  simp [eq_comm]

theorem closesTag_of_head {tag : List Char} (h : body.head? ≠ some '/') : closesTag tag body = false := by
  refine decide_eq_false fun heq => ?_
  cases body with
  | nil => cases heq
  | cons c body =>
    rw [List.map_cons, List.map_cons] at heq
    exact h (congrArg some ((toLower_eq_iff rfl).mp (List.cons.inj heq).1))

/-! ### Leaves -/

theorem Leaf.Valid.head_ne (h : l.Valid) : (l.name ++ l.attributes).head? ≠ some '/' := by
  obtain ⟨c, rest, hcons⟩ := List.exists_cons_of_ne_nil h.name_ne_nil
  have hhead := h.name.noSlash
  rw [hcons] at hhead ⊢
  exact hhead

theorem notMem_content (l : Leaf) (body : List Char) : Token.tag body ∉ l.content := by
  intro hmem
  rcases List.mem_append.mp hmem with hmem | hmem
  · rcases List.mem_cons.mp hmem with heq | hmem
    · cases heq
    · obtain ⟨piece, -, heq⟩ := List.mem_map.mp hmem
      cases piece with
      | plain c => cases heq
      | named c => cases heq
      | decimal digits => cases heq
      | hex digits => cases heq
      | cdata chars => cases heq
  · cases List.mem_singleton.mp hmem

theorem splitTag_content (l : Leaf) (p : List Char → Bool) : splitTag p l.content = none :=
  splitTag_eq_none fun body hmem => absurd hmem (notMem_content l body)

theorem mem_tokens_tag (h : .tag body ∈ l.tokens) : body = l.name ++ l.attributes ∨ body = '/' :: l.name := by
  rcases List.mem_append.mp h with h | h
  · rcases List.mem_cons.mp h with heq | h
    · exact Or.inl (Token.tag.inj heq)
    · exact absurd h (notMem_content l body)
  · rcases List.mem_cons.mp h with heq | h
    · exact Or.inr (Token.tag.inj heq)
    · cases List.mem_singleton.mp h

/-- A leaf of another name has neither tag of the name. -/
theorem tags_leaf (hname : IsName name) (hl : l.Valid) (hother : sameName name l.name = false)
    (h : .tag body ∈ l.tokens) : opensTag name body = false ∧ closesTag name body = false := by
  rcases mem_tokens_tag h with rfl | rfl
  · exact ⟨(opensTag_append hname.noSpace hl.name.noSpace hl.attributes.space).trans hother,
      closesTag_of_head hl.head_ne⟩
  · exact ⟨opensTag_slash hname.noSlash, (closesTag_slash name).trans hother⟩

theorem tags_leaves (hname : IsName name) (hleaves : ∀ l ∈ leaves, l.Valid ∧ sameName name l.name = false)
    (h : .tag body ∈ leavesTokens leaves) : opensTag name body = false ∧ closesTag name body = false := by
  obtain ⟨l, hl, hmem⟩ := List.mem_flatMap.mp h
  exact tags_leaf hname (hleaves l hl).1 (hleaves l hl).2 hmem

theorem contentOf_append (h : splitTag (opensTag name) doc = none) :
    contentOf name (doc ++ after) = contentOf name after := by
  rw [contentOf, contentOf, splitTag_append h]
  cases splitTag (opensTag name) after with
  | none => rfl
  | some found => rfl

/-- The content of the first leaf of the name. -/
theorem contentOf_leaves (hname : IsName name) (hleaves : ∀ l ∈ leaves, l.Valid)
    (hafter : splitTag (opensTag name) after = none) : contentOf name (leavesTokens leaves ++ after) =
      (leaves.find? fun l => sameName name l.name).map Leaf.content := by
  induction leaves with
  | nil =>
    rw [leavesTokens, List.flatMap_nil, List.nil_append, contentOf, hafter]
    rfl
  | cons l leaves ih =>
    have hl := hleaves l List.mem_cons_self
    have htail := ih fun l' hl' => hleaves l' (List.mem_cons_of_mem l hl')
    have htokens : leavesTokens (l :: leaves) ++ after = l.tokens ++ (leavesTokens leaves ++ after) := by
      rw [leavesTokens, List.flatMap_cons, List.append_assoc]
      rfl
    rw [htokens]
    by_cases hsame : sameName name l.name = true
    · have hopens : opensTag name (l.name ++ l.attributes) = true :=
        (opensTag_append hname.noSpace hl.name.noSpace hl.attributes.space).trans hsame
      have hcloses : closesTag name ('/' :: l.name) = true := (closesTag_slash name).trans hsame
      have hparts : l.tokens ++ (leavesTokens leaves ++ after) = .tag (l.name ++ l.attributes) ::
          (l.content ++ .tag ('/' :: l.name) :: .text l.gap :: (leavesTokens leaves ++ after)) := by
        rw [Leaf.tokens]
        simp only [List.cons_append, List.append_assoc, List.nil_append]
      rw [List.find?_cons_of_pos (p := fun l => sameName name (Leaf.name l)) hsame, Option.map_some, hparts, contentOf, splitTag, if_pos hopens, Option.bind_some,
        splitTag_append (splitTag_content l _), splitTag, if_pos hcloses, Option.map_some, Option.map_some,
        List.append_nil]
    · have hother : sameName name l.name = false := Bool.eq_false_of_not_eq_true hsame
      have hnone : splitTag (opensTag name) l.tokens = none :=
        splitTag_eq_none fun body hbody => (tags_leaf hname hl hother hbody).1
      rw [List.find?_cons_of_neg (p := fun l => sameName name (Leaf.name l)) hsame, ← htail, contentOf_append hnone]

/-! ### Well-formed tokens -/

/-- Letters make a name. -/
theorem isName_of_isAlpha {tag : List Char} (h : ∀ c ∈ tag, c.isAlpha = true) : IsName tag := by
  have hnot : ∀ {c : Char}, c.isAlpha = false → c ∉ tag := by
    intro c hc hmem
    rw [h c hmem] at hc
    cases hc
  refine ⟨fun c hc => ?_, ⟨hnot rfl, hnot rfl⟩, fun hhead => ?_⟩
  · by_contra hspace
    exact hnot (isAlpha_of_isSpace (Bool.of_not_eq_false hspace)) hc
  · exact absurd (List.mem_of_mem_head? hhead) (hnot rfl)

theorem isName_item : IsName "item".toList := isName_of_isAlpha (by simp)

theorem isName_channel : IsName "channel".toList := isName_of_isAlpha (by simp)

theorem valid_tag {tag : List Char} (htag : '<' ∉ tag ∧ '>' ∉ tag) (hattributes : ValidAttributes attributes)
    (hne : tag ≠ []) (hbang : tag.head? ≠ some '!') : (Token.tag (tag ++ attributes)).Valid := by
  refine ⟨?_, ?_, fun hprefix => ?_⟩
  · rw [List.mem_append, not_or]
    exact ⟨htag.1, hattributes.noBracket.1⟩
  · rw [List.mem_append, not_or]
    exact ⟨htag.2, hattributes.noBracket.2⟩
  · obtain ⟨c, rest, rfl⟩ := List.exists_cons_of_ne_nil hne
    exact hbang (congrArg some (List.cons_prefix_cons.mp hprefix).1.symm)

theorem valid_slash {tag : List Char} (htag : '<' ∉ tag ∧ '>' ∉ tag) : (Token.tag ('/' :: tag)).Valid := by
  have hslash : (Token.tag (('/' :: tag) ++ [])).Valid := by
    refine valid_tag ⟨?_, ?_⟩ ⟨⟨List.not_mem_nil, List.not_mem_nil⟩, rfl⟩ (List.cons_ne_nil _ _) fun hhead => ?_
    · rw [List.mem_cons, not_or]
      exact ⟨by decide, htag.1⟩
    · rw [List.mem_cons, not_or]
      exact ⟨by decide, htag.2⟩
    · exact absurd (Option.some.inj hhead) (by decide)
  rwa [List.append_nil] at hslash

theorem notMem_of_isSpace {text : List Char} (h : ∀ c ∈ text, isSpace c = true) : '<' ∉ text := by
  intro hmem
  have hspace := h _ hmem
  exact absurd hspace (by decide)

theorem Leaf.Valid.tokens (h : l.Valid) : ∀ t ∈ l.tokens, t.Valid := by
  intro t ht
  rcases List.mem_append.mp ht with ht | ht
  · rcases List.mem_cons.mp ht with rfl | ht
    · exact valid_tag h.name.noBracket h.attributes h.name_ne_nil h.noBang
    · rcases List.mem_append.mp ht with ht | ht
      · rcases List.mem_cons.mp ht with rfl | ht
        · exact notMem_of_isSpace h.left
        · obtain ⟨piece, hpiece, rfl⟩ := List.mem_map.mp ht
          exact valid_token (h.pieces piece hpiece)
      · rw [List.mem_singleton.mp ht]
        exact notMem_of_isSpace h.right
  · rcases List.mem_cons.mp ht with rfl | ht
    · exact valid_slash h.name.noBracket
    · rw [List.mem_singleton.mp ht]
      exact h.gap

theorem valid_leaves (hleaves : ∀ l ∈ leaves, l.Valid) : ∀ t ∈ leavesTokens leaves, t.Valid := by
  intro t ht
  obtain ⟨l, hl, hmem⟩ := List.mem_flatMap.mp ht
  exact (hleaves l hl).tokens t hmem

theorem Item.Valid.block (h : item.Valid) : ∀ t ∈ item.block, t.Valid := by
  intro t ht
  rcases List.mem_append.mp ht with ht | ht
  · rcases List.mem_cons.mp ht with rfl | ht
    · exact valid_tag (by decide) h.attributes (by decide) (by decide)
    · rcases List.mem_cons.mp ht with rfl | ht
      · exact h.gap
      · exact valid_leaves h.leaves t ht
  · rw [List.mem_singleton.mp ht]
    exact valid_slash isName_item.noBracket

theorem Item.Valid.tokens (h : item.Valid) : ∀ t ∈ item.tokens, t.Valid := by
  intro t ht
  rcases List.mem_append.mp ht with ht | ht
  · exact h.block t ht
  · rw [List.mem_singleton.mp ht]
    exact h.after

/-! ### Fields -/

def fieldNames : List String := ["title", "link", "guid", "description", "pubDate", "category", "language"]

theorem isName_field {n : String} (hn : n ∈ fieldNames) :
    IsName n.toList ∧ sameName n.toList "item".toList = false := by
  have hletters : ∀ n ∈ fieldNames, ∀ c ∈ n.toList, c.isAlpha = true := by simp [fieldNames]
  have hitem : ∀ n ∈ fieldNames, sameName n.toList "item".toList = false := by decide
  exact ⟨isName_of_isAlpha (hletters n hn), hitem n hn⟩

theorem written_content (l : Leaf) : written l.content = l.left ++ spelled l.pieces ++ l.right := by
  rw [Leaf.content, List.cons_append, written_cons, written_append, written_spelled, written_cons, written_nil,
    List.append_nil, List.append_assoc]
  rfl

theorem decodeText_content (h : l.Valid) : decodeText (written l.content) = l.text := by
  rw [written_content]
  exact decodeText_spelled h.left h.right h.pieces h.trimmed

/-- The text of the first leaf of a name is what is extracted and decoded, before and after other tokens. -/
theorem extract_leaves {n : String} {pre post : List Token} (hn : n ∈ fieldNames) (hleaves : ∀ l ∈ leaves, l.Valid)
    (hpre : ∀ t ∈ pre, t.Valid) (hpost : ∀ t ∈ post, t.Valid)
    (hnone : splitTag (opensTag n.toList) pre = none) (hnone' : splitTag (opensTag n.toList) post = none) :
    (extractTagContent (written (pre ++ (leavesTokens leaves ++ post))) n.toList).map decodeText = textOf n leaves := by
  obtain ⟨hname, -⟩ := isName_field hn
  have hvalid : ∀ t ∈ pre ++ (leavesTokens leaves ++ post), t.Valid := by
    intro t ht
    rcases List.mem_append.mp ht with ht | ht
    · exact hpre t ht
    · exact (List.mem_append.mp ht).elim (valid_leaves hleaves t) (hpost t)
  rw [extractTagContent_written hname hvalid, contentOf_append hnone, contentOf_leaves hname hleaves hnone', textOf,
    Option.map_map, Option.map_map]
  cases hfind : leaves.find? fun l => sameName n.toList l.name with
  | none => rfl
  | some l => exact congrArg some (decodeText_content (hleaves l (List.mem_of_find?_eq_some hfind)))

theorem decodeOrUndefined_eq (raw : Option (List Char)) : decodeOrUndefined raw =
    (raw.map decodeText).bind fun text => if text = [] then none else some (.ofList text) := by
  cases raw with
  | none => rfl
  | some raw => rfl

/-! ### Items -/

theorem opensTag_element {n : String} (hn : n ∈ fieldNames) (hattributes : ValidAttributes attributes) :
    opensTag n.toList ("item".toList ++ attributes) = false ∧ opensTag n.toList "/item".toList = false := by
  obtain ⟨hname, hitem⟩ := isName_field hn
  exact ⟨(opensTag_append hname.noSpace isName_item.noSpace hattributes.space).trans hitem,
    opensTag_slash hname.noSlash⟩

theorem extract_block {n : String} (hn : n ∈ fieldNames) (h : item.Valid) :
    (extractTagContent (written item.block) n.toList).map decodeText = textOf n item.leaves := by
  obtain ⟨hopen, hclose⟩ := opensTag_element hn h.attributes
  have hparts : item.block = [.tag ("item".toList ++ item.attributes), .text item.gap] ++
      (leavesTokens item.leaves ++ [.tag "/item".toList]) := rfl
  have hvalid := h.block
  rw [hparts] at hvalid ⊢
  refine extract_leaves hn h.leaves (fun t ht => hvalid t (List.mem_append_left _ ht)) (fun t ht => ?_) ?_ ?_
  · exact hvalid t (List.mem_append_right _ (List.mem_append_right _ ht))
  · rw [splitTag, if_neg (by rw [hopen]; exact Bool.false_ne_true)]
    rfl
  · rw [splitTag, if_neg (by rw [hclose]; exact Bool.false_ne_true)]
    rfl

theorem parseRssItem_written (dates : Dates) (h : item.Valid) : parseRssItem dates (written item.block) = item.read dates := by
  have hfield : ∀ n ∈ fieldNames, decodeOrUndefined (extractTagContent (written item.block) n.toList) =
      fieldOf n item.leaves := by
    intro n hn
    rw [decodeOrUndefined_eq, extract_block hn h, fieldOf]
  rw [parseRssItem, Item.read]
  dsimp only
  rewrite [hfield "title" (by decide), hfield "guid" (by decide), hfield "link" (by decide), hfield "pubDate" (by decide),
    hfield "category" (by decide), decodeOrEmpty, extract_block (n := "description") (by decide) h]
  cases fieldOf "title" item.leaves with
  | none => rfl
  | some title =>
    cases (fieldOf "guid" item.leaves).or (fieldOf "link" item.leaves) with
    | none => rfl
    | some id =>
      cases fieldOf "link" item.leaves with
      | none => rfl
      | some link => rfl

/-! ### Channels -/

variable {ch : Channel}

theorem Channel.Valid.inner (h : ch.Valid) : ∀ t ∈ ch.body, t.Valid := by
  intro t ht
  rcases List.mem_append.mp ht with ht | ht
  · rcases List.mem_cons.mp ht with rfl | ht
    · exact h.gap
    · exact valid_leaves h.leaves t ht
  · obtain ⟨item, hitem, hmem⟩ := List.mem_flatMap.mp ht
    exact (h.items item hitem).tokens t hmem

theorem Channel.Valid.tokens (h : ch.Valid) : ∀ t ∈ ch.tokens, t.Valid := by
  intro t ht
  rcases List.mem_append.mp ht with ht | ht
  · rcases List.mem_append.mp ht with ht | ht
    · exact h.prolog t ht
    · rcases List.mem_cons.mp ht with rfl | ht
      · exact valid_tag isName_channel.noBracket h.attributes (by decide) (by decide)
      · exact h.inner t ht
  · rcases List.mem_cons.mp ht with rfl | ht
    · exact valid_slash isName_channel.noBracket
    · exact h.epilog t ht

/-- The channel ends at its closing tag. -/
theorem closesTag_body (h : ch.Valid) : splitTag (closesTag "channel".toList) ch.body = none := by
  refine splitTag_eq_none fun body hbody => ?_
  have hleaves : ∀ {leaves : List Leaf}, (∀ l ∈ leaves, l.Valid) → .tag body ∈ leavesTokens leaves →
      closesTag "channel".toList body = false := fun hleaves hmem =>
    (tags_leaves isName_channel (fun l hl => ⟨hleaves l hl, (hleaves l hl).other.2⟩) hmem).2
  rcases List.mem_append.mp hbody with hmem | hmem
  · rcases List.mem_cons.mp hmem with heq | hmem
    · cases heq
    · exact hleaves h.leaves hmem
  · obtain ⟨item, hitem, hmem⟩ := List.mem_flatMap.mp hmem
    rcases List.mem_append.mp hmem with hmem | hmem
    · rcases List.mem_append.mp hmem with hmem | hmem
      · rcases List.mem_cons.mp hmem with heq | hmem
        · rw [Token.tag.inj heq]
          exact closesTag_of_head fun hhead => absurd (Option.some.inj hhead) (by decide)
        · rcases List.mem_cons.mp hmem with heq | hmem
          · cases heq
          · exact hleaves (h.items item hitem).leaves hmem
      · rw [Token.tag.inj (List.mem_singleton.mp hmem)]
        decide
    · cases List.mem_singleton.mp hmem

theorem extract_channel (h : ch.Valid) : extractTagContent (Feeds.written ch.tokens) "channel".toList =
    some (Feeds.written ch.body) := by
  have hopens : opensTag "channel".toList ("channel".toList ++ ch.attributes) = true :=
    opensTag_append isName_channel.noSpace isName_channel.noSpace h.attributes.space
  have hcloses : closesTag "channel".toList "/channel".toList = true := by decide
  rw [extractTagContent_written isName_channel h.tokens, Channel.tokens, List.append_assoc, contentOf_append h.noChannel,
    List.cons_append, contentOf, splitTag, if_pos hopens, Option.bind_some, splitTag_append (closesTag_body h), splitTag,
    if_pos hcloses, Option.map_some, Option.map_some, Option.map_some, List.append_nil]

/-- What comes before the items. -/
theorem opensTag_leaves (h : ch.Valid) :
    splitTag (opensTag "item".toList) (.text ch.gap :: leavesTokens ch.leaves) = none := by
  refine splitTag_eq_none fun body hbody => ?_
  rcases List.mem_cons.mp hbody with heq | hmem
  · cases heq
  · exact (tags_leaves isName_item (fun l hl => ⟨h.leaves l hl, (h.leaves l hl).other.1⟩) hmem).1

/-- An item ends at its closing tag. -/
theorem splitTag_item (h : item.Valid) (p : List Token) : ∃ inner,
    splitTag (opensTag "item".toList) (item.block ++ p) =
      some ([], "item".toList ++ item.attributes, inner ++ .tag "/item".toList :: p) ∧
    splitTag (closesTag "item".toList) (inner ++ .tag "/item".toList :: p) = some (inner, "/item".toList, p) ∧
    item.block = .tag ("item".toList ++ item.attributes) :: inner ++ [.tag "/item".toList] := by
  have hopens : opensTag "item".toList ("item".toList ++ item.attributes) = true :=
    opensTag_append isName_item.noSpace isName_item.noSpace h.attributes.space
  have hcloses : closesTag "item".toList "/item".toList = true := by decide
  have hinner : splitTag (closesTag "item".toList) (.text item.gap :: leavesTokens item.leaves) = none := by
    refine splitTag_eq_none fun body hbody => ?_
    rcases List.mem_cons.mp hbody with heq | hmem
    · cases heq
    · exact (tags_leaves isName_item (fun l hl => ⟨h.leaves l hl, (h.leaves l hl).other.1⟩) hmem).2
  refine ⟨.text item.gap :: leavesTokens item.leaves, ?_, ?_, rfl⟩
  · rw [Item.block, List.append_assoc, List.cons_append, splitTag, if_pos hopens]
    rfl
  · rw [splitTag_append hinner, splitTag, if_pos hcloses, Option.map_some, List.append_nil]

/-- The blocks are the items, with or without other tokens before them. -/
theorem blocksOf_items {pre : List Token} (hitems : ∀ item ∈ items, item.Valid)
    (hpre : splitTag (opensTag "item".toList) pre = none) {fuel : ℕ} (hfuel : items.length < fuel) :
    blocksOf "item".toList fuel (pre ++ items.flatMap Item.tokens) = items.map Item.block := by
  induction items generalizing pre fuel with
  | nil =>
    obtain ⟨fuel, rfl⟩ : ∃ k, fuel = k + 1 := ⟨fuel - 1, by omega⟩
    rw [List.flatMap_nil, List.append_nil, blocksOf, hpre]
    rfl
  | cons item items ih =>
    rw [List.length_cons] at hfuel
    obtain ⟨fuel, rfl⟩ : ∃ k, fuel = k + 1 := ⟨fuel - 1, by omega⟩
    obtain ⟨inner, hopen, hclose, hblock⟩ := splitTag_item (hitems item List.mem_cons_self)
      (.text item.after :: items.flatMap Item.tokens)
    have hgap : splitTag (opensTag "item".toList) [.text item.after] = none := rfl
    have hrest : blocksOf "item".toList fuel ([.text item.after] ++ items.flatMap Item.tokens) = items.map Item.block :=
      ih (fun item' hitem' => hitems item' (List.mem_cons_of_mem item hitem')) hgap (by omega)
    have hparts : (item :: items).flatMap Item.tokens = item.block ++ .text item.after :: items.flatMap Item.tokens := by
      rw [List.flatMap_cons, Item.tokens, List.append_assoc, List.singleton_append]
    rw [blocksOf, hparts, splitTag_append hpre, hopen, Option.map_some]
    dsimp only
    rw [hclose]
    dsimp only
    rw [List.map_cons, ← hblock]
    exact congrArg _ hrest

end

end Arald.Feeds
