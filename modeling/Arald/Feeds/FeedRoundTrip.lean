import Arald.Feeds.FeedDocuments

/-!
# Reading what was written

The parser reads every RSS document as it was meant, however its texts are spelled, and reads a feed
back that was written with entities or CDATA sections.
-/

namespace Arald.Feeds

open Foundations Scanning

variable {dates : Dates} {ch : Channel} {item : Item} {items : List Item} {name : List Char}

/-! ### Feeds written as documents -/

def escape (c : Char) : Piece := if c ∈ ['<', '>', '"', '\'', '&'] then .named c else .plain c

/-- A text in one CDATA section, or escaped. -/
def spell (inCdata : Bool) (text : List Char) : List Piece := if inCdata then [.cdata text] else text.map escape

def leafOf (style : String → Bool) (name text : String) : Leaf where
  name := name.toList
  attributes := []
  left := []
  pieces := spell (style name) text.toList
  right := []
  gap := []

/-- The fields of an item with their names. -/
def fieldsOf (item : FeedItem) : List (String × String) :=
  [("title", item.title), ("link", item.link), ("guid", item.id), ("description", item.summary),
    ("pubDate", item.publishedAt)] ++ item.category.toList.map fun category => ("category", category)

def writeItem (style : String → Bool) (item : FeedItem) : Item where
  attributes := []
  gap := []
  leaves := (fieldsOf item).map fun field => leafOf style field.1 field.2
  after := []

/-- `style i name` says which fields of item `i` are in CDATA sections. -/
def writeFeed (style : ℕ → String → Bool) (feed : ParsedFeed) : Channel where
  prolog := [.tag "?xml version=\"1.0\"?".toList, .tag "rss version=\"2.0\"".toList]
  attributes := []
  gap := []
  leaves := leafOf (style 0) "title" feed.source ::
    feed.language.toList.map fun language => leafOf (style 0) "language" language
  items := feed.items.mapIdx fun i item => writeItem (style i) item
  epilog := [.tag "/rss".toList]

/-- A text that can be written so: without the end of a section in it, or without white space around it. -/
def Fits (inCdata : Bool) (text : String) : Prop :=
  if inCdata then ¬cdataEnd <:+: text.toList else Trimmed text.toList

structure Writable (dates : Dates) (style : String → Bool) (item : FeedItem) : Prop where
  title : item.title ≠ ""
  link : item.link ≠ ""
  id : item.id ≠ ""
  category : item.category ≠ some ""
  updatedAt : item.updatedAt = none
  publishedAt : toIso dates item.publishedAt = some item.publishedAt
  fits : ∀ field ∈ fieldsOf item, Fits (style field.1) field.2

instance (inCdata : Bool) (text : String) : Decidable (Fits inCdata text) :=
  inferInstanceAs (Decidable (if inCdata then _ else _))

theorem valid_escape (c : Char) : (escape c).Valid := by
  rw [escape]
  split_ifs with hc
  · exact hc
  · refine ⟨?_, ?_⟩
    · rintro rfl
      exact hc (by decide)
    · rintro rfl
      exact hc (by decide)

theorem meant_spell (inCdata : Bool) (text : List Char) : meant (spell inCdata text) = text := by
  cases inCdata with
  | true => exact List.append_nil text
  | false =>
    change meant (text.map escape) = text
    induction text with
    | nil => rfl
    | cons c text ih =>
      have hvalue : (escape c).value = [c] := by
        rw [escape]
        split_ifs
        · rfl
        · rfl
      rw [List.map_cons, meant_cons, ih, hvalue, List.singleton_append]

theorem isSpace_marks : isSpace '<' = false ∧ isSpace '>' = false ∧ isSpace '&' = false ∧ isSpace ';' = false := by
  simp [isSpace]

theorem trimmed_of_ends {c d : Char} {text : List Char} (hhead : text.head? = some c) (hlast : text.getLast? = some d)
    (hc : isSpace c = false) (hd : isSpace d = false) : Trimmed text := by
  rw [Trimmed, hhead, hlast, Option.all_some, Option.all_some, hc, hd]
  exact ⟨rfl, rfl⟩

theorem Trimmed.append {a b c : List Char} (ha : Trimmed a) (hne : a ≠ []) (hc : Trimmed c) (hne' : c ≠ []) :
    Trimmed (a ++ b ++ c) := by
  refine ⟨?_, ?_⟩
  · obtain ⟨d, a, rfl⟩ := List.exists_cons_of_ne_nil hne
    exact ha.1
  · rw [List.getLast?_append_of_ne_nil _ hne']
    exact hc.2

theorem trimmed_escape {c : Char} (h : isSpace c = false) : Trimmed (escape c).written := by
  rw [escape]
  split_ifs
  · exact trimmed_of_ends rfl (List.getLast?_append_of_ne_nil _ (List.cons_ne_nil _ _)) isSpace_marks.2.2.1
      isSpace_marks.2.2.2
  · exact trimmed_of_ends rfl rfl h h

theorem trimmed_spell {inCdata : Bool} {text : String} (h : Fits inCdata text) :
    Trimmed (spelled (spell inCdata text.toList)) := by
  cases inCdata with
  | true =>
    have hparts : spelled (spell true text.toList) = cdataStart ++ text.toList ++ cdataEnd := List.append_nil _
    have hbrackets : isSpace '[' = false ∧ isSpace ']' = false := by simp [isSpace]
    have hstart : Trimmed cdataStart := trimmed_of_ends rfl rfl isSpace_marks.1 hbrackets.1
    have hend : Trimmed cdataEnd := trimmed_of_ends rfl rfl hbrackets.2 isSpace_marks.2.1
    rw [hparts]
    exact hstart.append (List.cons_ne_nil _ _) hend (List.cons_ne_nil _ _)
  | false =>
    have htrimmed : Trimmed text.toList := h
    change Trimmed (spelled (text.toList.map escape))
    generalize text.toList = text at htrimmed
    have hends : ∀ {c}, (some c).all (fun c => !isSpace c) = true → Trimmed (escape c).written := fun hc =>
      trimmed_escape ((Bool.not_eq_true' _).mp hc)
    rcases text with _ | ⟨c, tail⟩
    · exact ⟨rfl, rfl⟩
    · rcases List.eq_nil_or_concat tail with rfl | ⟨mid, d, rfl⟩
      · rw [List.map_cons, List.map_nil, spelled_cons, spelled_nil, List.append_nil]
        exact hends htrimmed.1
      · have hlast := htrimmed.2
        rw [List.concat_eq_append, ← List.cons_append, List.getLast?_concat] at hlast
        rw [List.concat_eq_append, List.map_cons, List.map_append, List.map_singleton, spelled_cons, spelled_append,
          spelled_cons, spelled_nil, List.append_nil, ← List.append_assoc]
        exact (hends htrimmed.1).append (written_ne_nil _) (hends hlast) (written_ne_nil _)

theorem valid_spell {inCdata : Bool} {text : String} (h : Fits inCdata text) :
    ∀ p ∈ spell inCdata text.toList, p.Valid := by
  intro p hp
  cases inCdata with
  | true =>
    rw [List.mem_singleton.mp hp]
    exact h
  | false =>
    obtain ⟨c, -, rfl⟩ := List.mem_map.mp hp
    exact valid_escape c

theorem valid_leafOf {style : String → Bool} {n text : String} (hn : n ∈ fieldNames) (h : Fits (style n) text) :
    (leafOf style n text).Valid := by
  have hall : ∀ n ∈ fieldNames, n.toList ≠ [] ∧ n.toList.head? ≠ some '!' ∧ sameName "item".toList n.toList = false ∧
      sameName "channel".toList n.toList = false := by
    decide
  obtain ⟨hne, hbang, hitem, hchannel⟩ := hall n hn
  exact {
    name := (isName_field hn).1
    name_ne_nil := hne
    noBang := hbang
    other := ⟨hitem, hchannel⟩
    attributes := ⟨⟨List.not_mem_nil, List.not_mem_nil⟩, rfl⟩
    left := fun c hc => absurd hc List.not_mem_nil
    right := fun c hc => absurd hc List.not_mem_nil
    gap := List.not_mem_nil
    pieces := valid_spell h
    trimmed := trimmed_spell h }

theorem fieldsOf_names (item : FeedItem) : ∀ field ∈ fieldsOf item, field.1 ∈ fieldNames := by
  intro field hfield
  rcases List.mem_append.mp hfield with hfield | hfield
  · have hnames : ["title", "link", "guid", "description", "pubDate"] ⊆ fieldNames := by decide
    exact hnames (List.mem_map_of_mem (f := Prod.fst) hfield)
  · obtain ⟨category, -, rfl⟩ := List.mem_map.mp hfield
    exact show "category" ∈ fieldNames by decide

theorem valid_writeItem {style : String → Bool} {item : FeedItem} (h : Writable dates style item) :
    (writeItem style item).Valid := by
  refine ⟨⟨⟨List.not_mem_nil, List.not_mem_nil⟩, rfl⟩, List.not_mem_nil, List.not_mem_nil, fun l hl => ?_⟩
  obtain ⟨field, hfield, rfl⟩ := List.mem_map.mp hl
  exact valid_leafOf (fieldsOf_names item field hfield) (h.fits field hfield)

/-! ### A notice -/

def noticeDates : Dates where
  parse text := if text = "2026-01-05T08:00:00.000Z" then some 1767600000000 else none
  toISOString _ := "2026-01-05T08:00:00.000Z"

def notice : FeedItem where
  id := "hut-7"
  title := "Path <closed>"
  summary := "<b>Ice</b> & wind"
  link := "http://hut.local/7"
  publishedAt := "2026-01-05T08:00:00.000Z"
  updatedAt := none
  category := some "Paths & huts"

def noticeStyle (name : String) : Bool := name = "description"

theorem writable_notice : Writable noticeDates noticeStyle notice where
  title := by decide
  link := by decide
  id := by decide
  category := by decide
  updatedAt := rfl
  publishedAt := rfl
  fits := by decide

/-- "Huts & paths", spelled in several ways. -/
def mixedTitle : Leaf where
  name := "Title".toList
  attributes := " lang=\"en\"".toList
  left := "\n  ".toList
  pieces := "Huts".toList.map Piece.plain ++
    [.decimal "32".toList, .named '&', .cdata " pat".toList, .hex "68".toList, .plain 's']
  right := " ".toList
  gap := "\n".toList

def mixedDocument : Channel where
  prolog := []
  attributes := []
  gap := "\n".toList
  leaves := [mixedTitle]
  items := [writeItem noticeStyle notice]
  epilog := []

/-! ### Documents -/

theorem extract_channel_leaves {n : String} (hn : n ∈ fieldNames) (h : ch.Valid) :
    (extractTagContent (written (.text ch.gap :: leavesTokens ch.leaves)) n.toList).map decodeText =
      textOf n ch.leaves := by
  have hparts : .text ch.gap :: leavesTokens ch.leaves = [.text ch.gap] ++ (leavesTokens ch.leaves ++ []) := by
    rw [List.append_nil, List.singleton_append]
  rw [hparts]
  refine extract_leaves hn h.leaves (fun t ht => ?_) (fun t ht => absurd ht List.not_mem_nil) rfl rfl
  rw [List.mem_singleton.mp ht]
  exact h.gap

theorem feedLevelSection_body (h : ch.Valid) : feedLevelSection (written ch.body) "item".toList =
    written (.text ch.gap :: leavesTokens ch.leaves) := by
  rw [feedLevelSection_written isName_item h.inner, Channel.body, splitTag_append (opensTag_leaves h)]
  cases hitems : ch.items with
  | nil =>
    rw [List.flatMap_nil, List.append_nil]
    rfl
  | cons item items =>
    obtain ⟨inner, hopen, -⟩ := splitTag_item (h.items item (hitems ▸ List.mem_cons_self))
      (.text item.after :: items.flatMap Item.tokens)
    have hfirst : (item :: items).flatMap Item.tokens = item.block ++ .text item.after :: items.flatMap Item.tokens := by
      rw [List.flatMap_cons, Item.tokens, List.append_assoc, List.singleton_append]
    rw [hfirst, hopen, Option.map_some, Option.map_some, Option.getD_some, List.append_nil]

theorem length_items_le (items : List Item) : items.length ≤ (written (items.flatMap Item.tokens)).length := by
  induction items with
  | nil => exact Nat.zero_le _
  | cons item items ih =>
    have hpos : 0 < (written item.tokens).length := by
      rw [Item.tokens, Item.block, List.cons_append, List.cons_append, written_cons, List.length_append,
        length_written_tag]
      omega
    rw [List.flatMap_cons, written_append, List.length_append, List.length_cons]
    omega

theorem matchAllTagBlocks_body (h : ch.Valid) : matchAllTagBlocks (written ch.body) "item".toList =
    ch.items.map fun item => written item.block := by
  have hfuel : ch.items.length < (written ch.body).length + 1 := by
    have hitems := length_items_le ch.items
    rw [Channel.body, written_append, List.length_append]
    omega
  rw [matchAllTagBlocks_written isName_item h.inner]
  exact (congrArg _ (blocksOf_items h.items (opensTag_leaves h) hfuel)).trans List.map_map

theorem parseRssChannel_written (h : ch.Valid) : parseRssChannel dates (written ch.body) = ch.read dates := by
  have hitems : ∀ items : List Item, (∀ item ∈ items, item.Valid) →
      (items.map fun item => written item.block).mapM (parseRssItem dates) = items.mapM (Item.read dates) := by
    intro items
    induction items with
    | nil => exact fun _ => rfl
    | cons item items ih =>
      intro hvalid
      rw [List.map_cons, List.mapM_cons, List.mapM_cons, parseRssItem_written dates (hvalid item List.mem_cons_self),
        ih fun item' hitem' => hvalid item' (List.mem_cons_of_mem item hitem')]
  have htake : ((ch.items.map fun item => written item.block).take maxItemsPerFeed).mapM (parseRssItem dates) =
      (ch.items.take maxItemsPerFeed).mapM (Item.read dates) := by
    rw [← List.map_take]
    exact hitems _ fun item hitem => h.items item (List.mem_of_mem_take hitem)
  rw [parseRssChannel, Channel.read]
  rw [feedLevelSection_body h, matchAllTagBlocks_body h, htake, decodeOrEmpty,
    extract_channel_leaves (n := "title") (by decide) h]
  congr 1
  funext items
  congr 1
  rw [← extract_channel_leaves (n := "language") (by decide) h, Option.map_map]
  rfl

theorem parseFeed_channel (h : ch.Valid) (hsize : ch.written.utf8ByteSize ≤ maxFeedBytes) :
    parseFeed dates ch.written = parseRssChannel dates (written ch.body) := by
  have hne : ch.written ≠ "" := by
    intro hempty
    have hnil := congrArg String.toList hempty
    rw [Channel.written, String.toList_ofList, Channel.tokens, List.append_assoc, written_append] at hnil
    exact absurd (List.append_eq_nil_iff.mp hnil).2 (List.cons_ne_nil _ _)
  rw [parseFeed, if_neg (not_or.mpr ⟨hne, not_lt.mpr hsize⟩), Channel.written, String.toList_ofList,
    extract_channel h]

theorem text_leafOf (style : String → Bool) (name text : String) : (leafOf style name text).text = text.toList :=
  meant_spell _ _

/-- The field of a name. -/
theorem find?_fieldsOf (item : FeedItem) {n : String} (hn : n ∈ fieldNames) :
    (fieldsOf item).find? (fun field => sameName n.toList field.1.toList) =
      (fieldsOf item).find? fun field => decide (n = field.1) := by
  have hsame : ∀ n ∈ fieldNames, ∀ m ∈ fieldNames, sameName n.toList m.toList = decide (n = m) := by decide
  have hall : ∀ l : List (String × String), (∀ field ∈ l, field.1 ∈ fieldNames) →
      l.find? (fun field => sameName n.toList field.1.toList) = l.find? fun field => decide (n = field.1) := by
    intro l
    induction l with
    | nil => exact fun _ => rfl
    | cons field l ih =>
      intro hl
      rw [List.find?_cons, List.find?_cons, hsame n hn field.1 (hl field List.mem_cons_self),
        ih fun field' hfield => hl field' (List.mem_cons_of_mem field hfield)]
  exact hall _ (fieldsOf_names item)

theorem textOf_leaves (style : String → Bool) (fields : List (String × String)) (n : String) :
    textOf n (fields.map fun field => leafOf style field.1 field.2) =
      (fields.find? fun field => sameName n.toList field.1.toList).map fun field => field.2.toList := by
  rw [textOf, List.find?_map, Option.map_map]
  refine congrArg₂ Option.map (funext fun field => text_leafOf style field.1 field.2) rfl

theorem fieldOf_leaves {style : String → Bool} {fields : List (String × String)} {n m text : String}
    (hfield : fields.find? (fun field => sameName n.toList field.1.toList) = some (m, text)) (hne : text ≠ "") :
    fieldOf n (fields.map fun field => leafOf style field.1 field.2) = some text := by
  have hlist : text.toList ≠ [] := fun hnil => hne (String.toList_injective hnil)
  rw [fieldOf, textOf_leaves, hfield, Option.map_some, Option.bind_some, if_neg hlist, String.ofList_toList]

theorem read_writeItem {style : String → Bool} {item : FeedItem} (h : Writable dates style item) :
    (writeItem style item).read dates = some item := by
  have hdate : item.publishedAt ≠ "" := by
    intro hempty
    have hsome := h.publishedAt
    rw [hempty] at hsome
    cases hsome
  have hcategory : fieldOf "category" (writeItem style item).leaves = item.category := by
    cases hcat : item.category with
    | none =>
      have hnone : (fieldsOf item).find? (fun field => sameName "category".toList field.1.toList) = none := by
        rw [find?_fieldsOf item (by decide)]
        simp [fieldsOf, hcat]
      rw [writeItem, fieldOf, textOf_leaves, hnone]
      rfl
    | some category =>
      refine fieldOf_leaves (m := "category") ?_ fun hempty => h.category (hempty ▸ hcat)
      rw [find?_fieldsOf item (by decide)]
      simp [fieldsOf, hcat]
  have hfield : ∀ {n text : String}, n ∈ fieldNames → text ≠ "" →
      (fieldsOf item).find? (fun field => decide (n = field.1)) = some (n, text) →
        fieldOf n (writeItem style item).leaves = some text := by
    intro n text hn hne hfind
    exact fieldOf_leaves ((find?_fieldsOf item hn).trans hfind) hne
  have htitle := hfield (n := "title") (by decide) h.title (by simp [fieldsOf])
  have hlink := hfield (n := "link") (by decide) h.link (by simp [fieldsOf])
  have hid := hfield (n := "guid") (by decide) h.id (by simp [fieldsOf])
  have hpub := hfield (n := "pubDate") (by decide) hdate (by simp [fieldsOf])
  have hsummary : textOf "description" (writeItem style item).leaves = some item.summary.toList := by
    rw [writeItem, textOf_leaves, find?_fieldsOf item (by decide)]
    simp [fieldsOf]
  rw [Item.read, htitle, hid, hlink, hpub, hcategory, hsummary, Option.bind_some, h.publishedAt, Option.getD_some,
    String.ofList_toList]
  obtain ⟨id, title, summary, link, publishedAt, updatedAt, category⟩ := item
  obtain rfl : updatedAt = none := h.updatedAt
  rfl

/-- Results at every index. -/
theorem mapM_mapIdx {α β γ : Type} {f : ℕ → α → β} {g : β → Option γ} {r : α → γ} {l : List α}
    (h : ∀ i, ∀ a ∈ l, g (f i a) = some (r a)) : (l.mapIdx f).mapM g = some (l.map r) := by
  induction l generalizing f with
  | nil => rfl
  | cons a l ih =>
    rw [List.mapIdx_cons, List.mapM_cons, h 0 a List.mem_cons_self,
      ih fun i a' ha' => h (i + 1) a' (List.mem_cons_of_mem a ha')]
    rfl

theorem valid_writeFeed {style : ℕ → String → Bool} {feed : ParsedFeed}
    (hitems : ∀ i, ∀ item ∈ feed.items, Writable dates (style i) item)
    (hsource : Fits (style 0 "title") feed.source) (hlanguage : ∀ l ∈ feed.language, Fits (style 0 "language") l) :
    (writeFeed style feed).Valid := by
  have hattributes : ValidAttributes [] := ⟨⟨List.not_mem_nil, List.not_mem_nil⟩, rfl⟩
  refine ⟨fun t ht => ?_, ?_, hattributes, List.not_mem_nil, fun l hl => ?_, fun item hitem => ?_, fun t ht => ?_⟩
  · rcases List.mem_cons.mp ht with rfl | ht
    · exact ⟨by decide, by decide, by decide⟩
    · rw [List.mem_singleton.mp ht]
      exact ⟨by decide, by decide, by decide⟩
  · change splitTag (opensTag "channel".toList)
      [.tag "?xml version=\"1.0\"?".toList, .tag "rss version=\"2.0\"".toList] = none
    rfl
  · rcases List.mem_cons.mp hl with rfl | hl
    · exact valid_leafOf (by decide) hsource
    · obtain ⟨language, hmem, rfl⟩ := List.mem_map.mp hl
      exact valid_leafOf (by decide) (hlanguage language (Option.mem_toList.mp hmem))
  · obtain ⟨i, hi, rfl⟩ := List.mem_mapIdx.mp hitem
    exact valid_writeItem (hitems i _ (List.getElem_mem hi))
  · rw [List.mem_singleton.mp ht]
    exact ⟨by decide, by decide, by decide⟩

theorem textOf_source (style : ℕ → String → Bool) (feed : ParsedFeed) :
    textOf "title" (writeFeed style feed).leaves = some feed.source.toList := by
  have hsame : sameName "title".toList "title".toList = true := by decide
  rw [writeFeed, textOf, List.find?_cons_of_pos (p := fun l => sameName "title".toList (Leaf.name l)) hsame,
    Option.map_some, text_leafOf]

theorem textOf_language (style : ℕ → String → Bool) (feed : ParsedFeed) :
    textOf "language" (writeFeed style feed).leaves = feed.language.map String.toList := by
  have hnames : sameName "language".toList "title".toList = false ∧
      sameName "language".toList "language".toList = true := by decide
  have hskip : ¬sameName "language".toList (leafOf (style 0) "title" feed.source).name = true :=
    ne_true_of_eq_false hnames.1
  rw [writeFeed, textOf, List.find?_cons_of_neg (p := fun l => sameName "language".toList (Leaf.name l)) hskip]
  cases feed.language with
  | none => rfl
  | some language =>
    rw [Option.toList_some, List.map_singleton,
      List.find?_cons_of_pos (p := fun l => sameName "language".toList (Leaf.name l)) hnames.2, Option.map_some,
      text_leafOf, Option.map_some]

def noticeFeed : ParsedFeed where
  source := "Huts & paths"
  language := some "en"
  items := [notice]

end Arald.Feeds
