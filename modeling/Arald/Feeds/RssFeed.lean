import Arald.Foundations.Scanning

/-!
# The feed parser

`rss-feed.ts`. A regular expression is a function of the text from a position on, which gives what
it matches there: the length of the match, or what a group captured. `Date.parse` and `toISOString`
are parameters.
-/

namespace Arald.Feeds

open Foundations

structure FeedItem where
  id : String
  title : String
  summary : String
  link : String
  publishedAt : String
  updatedAt : Option String
  category : Option String
  deriving DecidableEq

structure ParsedFeed where
  source : String
  language : Option String
  items : List FeedItem
  deriving DecidableEq

def maxFeedBytes : ℕ := 2000000

def maxItemsPerFeed : ℕ := 2000

/-- `parse` gives milliseconds, or `none` for `NaN`. -/
structure Dates where
  parse : String → Option ℤ
  toISOString : ℤ → String

/-! ### Characters -/

/-- What `\s` matches and `trim` removes. -/
def isSpace (c : Char) : Bool :=
  c.toNat ∈ [0x09, 0x0a, 0x0b, 0x0c, 0x0d, 0x20, 0xa0, 0x1680, 0x2028, 0x2029, 0x202f, 0x205f, 0x3000, 0xfeff] ||
    (0x2000 ≤ c.toNat && c.toNat ≤ 0x200a)

/-- What `\w` matches. -/
def isWord (c : Char) : Bool := c.isAlphanum || c = '_'

def isQuote (c : Char) : Bool := c = '"' || c = '\''

def trim (text : List Char) : List Char := (text.dropWhile isSpace).rdropWhile isSpace

/-- The word at the beginning of the text with the flag `i`, and the rest after it. -/
def afterWord (word text : List Char) : Option (List Char) :=
  if (text.take word.length).map Char.toLower = word.map Char.toLower then some (text.drop word.length)
  else none

/-! ### Regular expressions -/

/-- The length up to the next `>`, counted from `done`. -/
def toBracket (done : ℕ) (rest : List Char) : Option ℕ :=
  (rest.findIdx? fun c => c = '>').map fun k => done + k + 1

/-- `<tag(?:\s[^>]*)?>` -/
def openTag (tag text : List Char) : Option ℕ :=
  match afterWord ('<' :: tag) text with
  | none => none
  | some rest =>
    if rest.head?.any fun c => c = '>' || isSpace c then toBracket (tag.length + 1) rest else none

/-- `<\/tag>` -/
def closeTag (tag text : List Char) : Option ℕ :=
  (afterWord ('<' :: '/' :: tag ++ ['>']) text).map fun _ => tag.length + 3

/-- `<tag[\s>]` -/
def startTag (tag text : List Char) : Option ℕ :=
  match afterWord ('<' :: tag) text with
  | none => none
  | some rest => if rest.head?.any fun c => c = '>' || isSpace c then some (tag.length + 2) else none

/-- `<tag\b[^>]*>`, and `<tag\b[^>]*\/?>` where `[^>]*` takes the slash. -/
def anyTag (tag text : List Char) : Option ℕ :=
  match afterWord ('<' :: tag) text with
  | none => none
  | some rest => if rest.head?.any isWord then none else toBracket (tag.length + 1) rest

/-- `\battr=["']([^"']*)["']` after the character `prev`. -/
def attributeAt (attr : List Char) (prev : Option Char) (text : List Char) : Option (List Char) :=
  if prev.any isWord then none
  else
    match afterWord (attr ++ ['=']) text with
    | some (quote :: rest) =>
      if isQuote quote then
        let value := rest.takeWhile fun c => !isQuote c
        if value.length < rest.length then some value else none
      else none
    | _ => none

/-- The first match of the attribute in the text. -/
def findAttribute (attr : List Char) : Option Char → List Char → Option (List Char)
  | prev, [] => attributeAt attr prev []
  | prev, c :: rest =>
    match attributeAt attr prev (c :: rest) with
    | some value => some value
    | none => findAttribute attr (some c) rest

/-- `<tag\s[^>]*\battr=["']([^"']*)["']`, where `[^>]*` is as long as it can be. -/
def tagAttr (tag attr text : List Char) : Option (List Char) :=
  match afterWord ('<' :: tag) text with
  | some (space :: rest) =>
    if isSpace space then
      let run := rest.takeWhile fun c => c ≠ '>'
      (List.range (run.length + 1)).reverse.findSome? fun k =>
        attributeAt attr (if k = 0 then some space else run[k - 1]?) (rest.drop k)
    else none
  | _ => none

/-! ### CDATA sections -/

def cdataStart : List Char := "<![CDATA[".toList

def cdataEnd : List Char := "]]>".toList

def cdataSpansFrom (xml : List Char) : ℕ → ℕ → List (ℕ × ℕ)
  | 0, _ => []
  | fuel + 1, i =>
    if i < xml.length then
      match Scanning.indexOf cdataStart xml i with
      | none => []
      | some start =>
        match Scanning.indexOf cdataEnd xml (start + 9) with
        | none => [(start, xml.length)]
        | some stop => (start, stop + 3) :: cdataSpansFrom xml fuel (stop + 3)
    else []

def findCdataSpans (xml : List Char) : List (ℕ × ℕ) := cdataSpansFrom xml xml.length 0

def findSpanContaining (index : ℕ) (spans : List (ℕ × ℕ)) : Option (ℕ × ℕ) :=
  Scanning.bisect spans index spans.length 0 (spans.length - 1)

section
variable {β : Type*} (re : List Char → Option β) (xml : List Char) (spans : List (ℕ × ℕ))

def execOutsideFrom : ℕ → ℕ → Option (ℕ × β)
  | 0, _ => none
  | fuel + 1, lastIndex =>
    match Scanning.exec re xml lastIndex with
    | none => none
    | some found =>
      match findSpanContaining found.1 spans with
      | none => some found
      | some span => execOutsideFrom fuel span.2

/-- Each match that is rejected moves on to the end of its section. -/
def execOutsideCdata (start : ℕ) : Option (ℕ × β) := execOutsideFrom re xml spans (xml.length + 1) start

end

def matchesFrom (re : List Char → Option ℕ) (xml : List Char) (spans : List (ℕ × ℕ)) : ℕ → ℕ → List (ℕ × ℕ)
  | 0, _ => []
  | fuel + 1, start =>
    match execOutsideCdata re xml spans start with
    | none => []
    | some found => found :: matchesFrom re xml spans fuel (found.1 + found.2)

/-- The position and the length of each match. -/
def matchAllOutsideCdata (re : List Char → Option ℕ) (xml : List Char) (spans : List (ℕ × ℕ)) : List (ℕ × ℕ) :=
  matchesFrom re xml spans (xml.length + 1) 0

def findClosingTag (xml : List Char) (start : ℕ) (tag : List Char) (spans : List (ℕ × ℕ)) : Option ℕ :=
  (execOutsideCdata (closeTag tag) xml spans start).map Prod.fst

def slice (xml : List Char) (start stop : ℕ) : List Char := (xml.take stop).drop start

def extractTagContent (xml tag : List Char) : Option (List Char) :=
  let spans := findCdataSpans xml
  match execOutsideCdata (openTag tag) xml spans 0 with
  | none => none
  | some (index, length) =>
    let bodyStart := index + length
    (findClosingTag xml bodyStart tag spans).map fun closeIndex => slice xml bodyStart closeIndex

def blocksFrom (xml tag : List Char) (spans : List (ℕ × ℕ)) : ℕ → ℕ → List (List Char)
  | 0, _ => []
  | fuel + 1, start =>
    match execOutsideCdata (openTag tag) xml spans start with
    | none => []
    | some (index, length) =>
      match findClosingTag xml (index + length) tag spans with
      | none => []
      | some closeIndex =>
        let blockEnd := closeIndex + (tag.length + 3)
        slice xml index blockEnd :: blocksFrom xml tag spans fuel blockEnd

def matchAllTagBlocks (xml tag : List Char) : List (List Char) :=
  blocksFrom xml tag (findCdataSpans xml) (xml.length + 1) 0

/-! ### Text -/

def digitsValue (base : ℕ) (digits : List Char) : ℕ :=
  digits.foldl (fun n d => base * n + (if d.isDigit then d.toNat - 48 else d.toLower.toNat - 87)) 0

def codePointOrOriginal (codePoint : ℕ) (original : List Char) : List Char :=
  if codePoint > 0x10ffff ∨ 0xd800 ≤ codePoint ∧ codePoint ≤ 0xdfff then original else [Char.ofNat codePoint]

def isHexDigit (c : Char) : Bool := c.isDigit || ('a' ≤ c && c ≤ 'f') || ('A' ≤ c && c ≤ 'F')

/-- A character reference: its mark, digits and a semicolon. -/
def reference (mark : List Char) (isDigit : Char → Bool) (base : ℕ) (text : List Char) :
    Option (List Char × ℕ) :=
  if mark <+: text then
    let digits := (text.drop mark.length).takeWhile isDigit
    let length := mark.length + digits.length + 1
    if digits ≠ [] ∧ text[mark.length + digits.length]? = some ';' then
      some (codePointOrOriginal (digitsValue base digits) (text.take length), length)
    else none
  else none

/-- What `ENTITY_RE` matches at the beginning of the text: its replacement and its length. -/
def entityAt (text : List Char) : Option (List Char × ℕ) :=
  if "&lt;".toList <+: text then some (['<'], 4)
  else if "&gt;".toList <+: text then some (['>'], 4)
  else if "&quot;".toList <+: text then some (['"'], 6)
  else if "&apos;".toList <+: text then some (['\''], 6)
  else if "&amp;".toList <+: text then some (['&'], 5)
  else (reference "&#x".toList isHexDigit 16 text).or (reference "&#".toList Char.isDigit 10 text)

def decodeFrom : ℕ → List Char → List Char
  | 0, _ => []
  | _ + 1, [] => []
  | fuel + 1, c :: rest =>
    match entityAt (c :: rest) with
    | some (replacement, length) => replacement ++ decodeFrom fuel ((c :: rest).drop length)
    | none => c :: decodeFrom fuel rest

def decodeEntities (text : List Char) : List Char := decodeFrom text.length text

def decodeTextFrom (trimmed : List Char) : ℕ → ℕ → List Char
  | 0, _ => []
  | fuel + 1, i =>
    if i < trimmed.length then
      match Scanning.indexOf cdataStart trimmed i with
      | none => decodeEntities (trimmed.drop i)
      | some start =>
        decodeEntities (slice trimmed i start) ++
          match Scanning.indexOf cdataEnd trimmed (start + 9) with
          | none => trimmed.drop (start + 9)
          | some stop => slice trimmed (start + 9) stop ++ decodeTextFrom trimmed fuel (stop + 3)
    else []

def decodeText (raw : List Char) : List Char := decodeTextFrom (trim raw) (trim raw).length 0

def decodeOrUndefined (raw : Option (List Char)) : Option String :=
  match raw with
  | none => none
  | some raw => if decodeText raw = [] then none else some (.ofList (decodeText raw))

/-! ### Feeds -/

section
variable (dates : Dates)

def toIso (raw : String) : Option String :=
  if raw = "" then none else (dates.parse raw).map dates.toISOString

def decodeOrEmpty (raw : Option (List Char)) : String := .ofList ((raw.map decodeText).getD [])

/-- What comes before the first item. -/
def feedLevelSection (xml itemTag : List Char) : List Char :=
  match execOutsideCdata (startTag itemTag) xml (findCdataSpans xml) 0 with
  | none => xml
  | some (index, _) => xml.take index

def parseRssItem (block : List Char) : Option FeedItem :=
  let field tag := decodeOrUndefined (extractTagContent block (String.toList tag))
  let description := extractTagContent block "description".toList
  match field "title", (field "guid").or (field "link"), field "link" with
  | some title, some id, some link =>
    ((field "pubDate").bind (toIso dates)).map fun publishedAt =>
      { id, title, summary := decodeOrEmpty description, link, publishedAt, updatedAt := none,
        category := field "category" }
  | _, _, _ => none

def parseRssChannel (channel : List Char) : Option ParsedFeed :=
  let preamble := feedLevelSection channel "item".toList
  let languageRaw := extractTagContent preamble "language".toList
  (((matchAllTagBlocks channel "item".toList).take maxItemsPerFeed).mapM (parseRssItem dates)).map fun items =>
    { source := decodeOrEmpty (extractTagContent preamble "title".toList)
      language := languageRaw.map fun raw => .ofList (decodeText raw)
      items }

structure AtomLink where
  href : Option (List Char)
  rel : Option (List Char)

def pickAtomLink (block : List Char) : Option String :=
  let links := (matchAllOutsideCdata (anyTag "link".toList) block (findCdataSpans block)).map fun (index, length) =>
    let tag := slice block index (index + length)
    (⟨findAttribute "href".toList none tag, findAttribute "rel".toList none tag⟩ : AtomLink)
  let chosen := (links.find? fun l => l.href ≠ none ∧ l.rel = some "alternate".toList).or
    ((links.find? fun l => l.href ≠ none ∧ l.rel = none).or (links.find? fun l => l.href ≠ none))
  decodeOrUndefined (chosen.bind AtomLink.href)

def extractTagAttr (xml tag attr : List Char) : Option String :=
  (execOutsideCdata (tagAttr tag attr) xml (findCdataSpans xml) 0).map fun (_, value) =>
    .ofList (decodeEntities value)

def parseAtomEntry (block : List Char) : Option FeedItem :=
  let field tag := decodeOrUndefined (extractTagContent block (String.toList tag))
  let link := pickAtomLink block
  let summary := (extractTagContent block "summary".toList).or (extractTagContent block "content".toList)
  let published := field "published"
  let updated := field "updated"
  let category := (extractTagAttr block "category".toList "term".toList).or (field "category")
  match field "title", (field "id").or link, link with
  | some title, some id, some link =>
    (toIso dates ((published.or updated).getD "")).map fun publishedAt =>
      { id, title, summary := decodeOrEmpty summary, link, publishedAt
        updatedAt := updated.bind (toIso dates), category }
  | _, _, _ => none

def parseAtomFeed (xml : List Char) : Option ParsedFeed :=
  let preamble := feedLevelSection xml "entry".toList
  let rootTag := (Scanning.exec (anyTag "feed".toList) preamble 0).map fun (index, length) =>
    slice preamble index (index + length)
  let lang := rootTag.bind (findAttribute "xml:lang".toList none)
  (((matchAllTagBlocks xml "entry".toList).take maxItemsPerFeed).mapM (parseAtomEntry dates)).map fun items =>
    { source := decodeOrEmpty (extractTagContent preamble "title".toList)
      language := lang.map fun raw => .ofList (decodeEntities raw)
      items }

def parseFeed (xml : String) : Option ParsedFeed :=
  if xml = "" ∨ xml.utf8ByteSize > maxFeedBytes then none
  else
    match extractTagContent xml.toList "channel".toList with
    | some channel => parseRssChannel dates channel
    | none =>
      if (Scanning.exec (startTag "feed".toList) xml.toList 0).isSome then parseAtomFeed dates xml.toList
      else none

end

end Arald.Feeds
