import Arald.Foundations.Numerals

/-!
# Public addresses

`isPublicAddress` of `url-safety.ts`, which stands between a request that somebody else
chose and the networks around the node. It works on the text of an address; beside it
stand the addresses that the URL parser reads from such texts.

`isIP` of Node accepts dotted decimal numbers without leading zeros, and IPv6 addresses
with at most one `::` and perhaps a dotted quad at the end; zones are left out.
-/

namespace Arald

open Foundations

/-! ### Texts of addresses -/

def isIPv4 (text : List Char) : Bool :=
  (text.splitOn '.').length = 4 && (text.splitOn '.').all fun part => isDecimal part && numeral 10 part ≤ 255

/-- One to four hexadecimal digits. -/
def isHexGroup (g : List Char) : Bool := g ≠ [] && g.length ≤ 4 && g.all (isDigit 16)

/-- The text before and after the first `::`. -/
def splitDoubleColon : List Char → Option (List Char × List Char)
  | [] => none
  | c :: rest =>
    if c = ':' ∧ rest.head? = some ':' then some ([], rest.tail)
    else (splitDoubleColon rest).map fun sides => (c :: sides.1, sides.2)

/-- `text.length > 0 ? text.split(":") : []`. -/
def splitGroups (text : List Char) : List (List Char) := if text = [] then [] else text.splitOn ':'

/-- How many groups the text stands for; a dotted quad at its end counts for two. -/
def groupCount (quadAllowed : Bool) (text : List Char) : Option ℕ :=
  let groups := splitGroups text
  if groups.all isHexGroup then some groups.length
  else if quadAllowed && groups.dropLast.all isHexGroup && groups.getLast?.any isIPv4 then some (groups.length + 1)
  else none

def isIPv6 (text : List Char) : Bool :=
  match splitDoubleColon text with
  | none => groupCount true text = some 8
  | some (left, right) =>
    (splitDoubleColon right).isNone &&
      (groupCount false left).any fun m => (groupCount true right).any fun n => m + n ≤ 7

/-! ### The check -/

def ipv4ReservedRanges : List (String × String) :=
  [("0.0.0.0", "0.255.255.255"), ("10.0.0.0", "10.255.255.255"), ("100.64.0.0", "100.127.255.255"),
    ("127.0.0.0", "127.255.255.255"), ("169.254.0.0", "169.254.255.255"), ("172.16.0.0", "172.31.255.255"),
    ("192.0.0.0", "192.0.0.255"), ("192.0.2.0", "192.0.2.255"), ("192.168.0.0", "192.168.255.255"),
    ("198.18.0.0", "198.19.255.255"), ("198.51.100.0", "198.51.100.255"), ("203.0.113.0", "203.0.113.255"),
    ("224.0.0.0", "255.255.255.255")]

def ipv4ToInt (address : List Char) : ℕ :=
  let part := fun i => numeral 10 ((address.splitOn '.').getD i [])
  (part 0 <<< 24 ||| part 1 <<< 16 ||| part 2 <<< 8 ||| part 3) % 2 ^ 32

def expandIPv6Groups (address : List Char) : Option (List (List Char)) :=
  match splitDoubleColon address with
  | some sides =>
    if (splitDoubleColon sides.2).isSome then none
    else
      let left := splitGroups sides.1
      let right := splitGroups sides.2
      if 8 < left.length + right.length then none
      else some (left ++ List.replicate (8 - left.length - right.length) ['0'] ++ right)
  | none =>
    let groups := address.splitOn ':'
    if groups.length = 8 then some groups else none

/-- `parseInt(text, 16)`, `none` for `NaN`. -/
def parseHex (text : List Char) : Option ℕ :=
  match text.takeWhile (isDigit 16) with
  | [] => none
  | digits => some (numeral 16 digits)

/-- `g.padStart(4, "0")`. -/
def padStart4 (g : List Char) : List Char := List.replicate (4 - g.length) '0' ++ g

/-- A number in a template literal. -/
def showNumber : Option ℕ → List Char
  | some n => Nat.toDigits 10 n
  | none => "NaN".toList

def joinDots (parts : List (List Char)) : List Char := ['.'].intercalate parts

/-- The last two groups as a dotted quad. -/
def embeddedIpv4 (groups : List (List Char)) : List Char :=
  let high := padStart4 (groups.getD 6 [])
  let low := padStart4 (groups.getD 7 [])
  joinDots [showNumber (parseHex (high.take 2)), showNumber (parseHex ((high.drop 2).take 2)),
    showNumber (parseHex (low.take 2)), showNumber (parseHex ((low.drop 2).take 2))]

/-- The branch for version 4. -/
def isPublicIpv4 (address : List Char) : Bool :=
  !ipv4ReservedRanges.any fun range =>
    ipv4ToInt range.1.toList ≤ ipv4ToInt address && ipv4ToInt address ≤ ipv4ToInt range.2.toList

/-- The checks on the groups of an IPv6 address. The recursive call is about a text without a
colon, so it can only come to the branch for version 4. -/
def isPublicGroups (groups : List (List Char)) : Bool :=
  let first := parseHex (groups.getD 0 [])
  let isZeroGroup := fun g => parseHex g = some 0
  let isIPv4Mapped := (groups.take 5).all isZeroGroup && groups.getD 5 [] = "ffff".toList
  let isIPv4Compatible := (groups.take 6).all isZeroGroup
  if first.any fun v => 0xfe80 ≤ v && v ≤ 0xfebf then false
  else if first.any fun v => 0xfc00 ≤ v && v ≤ 0xfdff then false
  else if isIPv4Mapped || isIPv4Compatible then isIPv4 (embeddedIpv4 groups) && isPublicIpv4 (embeddedIpv4 groups)
  else true

def isPublicAddress (address : List Char) : Bool :=
  if isIPv4 address then isPublicIpv4 address
  else if isIPv6 address then
    let normalized := address.map Char.toLower
    if normalized = "::1".toList || normalized = "::".toList then false
    else
      match expandIPv6Groups normalized with
      | some groups => isPublicGroups groups
      | none => true
  else false

/-! ### What the URL parser reads -/

/-- A part of an IPv4 address: hexadecimal after `0x`, octal after `0`, else decimal. -/
def parseIpv4Number (part : List Char) : Option ℕ :=
  match part with
  | [] => none
  | ['0'] => some 0
  | '0' :: c :: digits =>
    if c = 'x' ∨ c = 'X' then if digits.all (isDigit 16) then some (numeral 16 digits) else none
    else if (c :: digits).all (isDigit 8) then some (numeral 8 (c :: digits)) else none
  | digits => if digits.all (isDigit 10) then some (numeral 10 digits) else none

/-- The address of up to four numbers, the last of which fills what is left. -/
def ipv4OfNumbers (numbers : List ℕ) : Option ℕ :=
  match numbers.getLast? with
  | none => none
  | some last =>
    let front := numbers.dropLast
    if 4 < numbers.length ∨ front.any (fun n => 255 < n) ∨ 256 ^ (5 - numbers.length) ≤ last then none
    else some ((front.zipIdx.map fun n => n.1 * 256 ^ (3 - n.2)).sum + last)

def parseIpv4 (text : List Char) : Option ℕ :=
  let parts := text.splitOn '.'
  let parts := if 1 < parts.length ∧ parts.getLast? = some [] then parts.dropLast else parts
  (parts.mapM parseIpv4Number).bind ipv4OfNumbers

/-- The address lies in one of the listed ranges. -/
def isReservedIpv4 (n : ℕ) : Bool :=
  ipv4ReservedRanges.any fun range =>
    (parseIpv4 range.1.toList).any (fun a => a ≤ n) && (parseIpv4 range.2.toList).any fun b => n ≤ b

/-- One to four hexadecimal digits, in either case and with leading zeros or not. -/
structure HexGroup where
  text : List Char
  isHex : isHexGroup text = true

/-- Four decimal numbers below 256. -/
structure DottedQuad where
  a : Fin 256
  b : Fin 256
  c : Fin 256
  d : Fin 256

def DottedQuad.text (q : DottedQuad) : List Char :=
  joinDots [Nat.toDigits 10 q.a, Nat.toDigits 10 q.b, Nat.toDigits 10 q.c, Nat.toDigits 10 q.d]

def DottedQuad.groups (q : DottedQuad) : List ℕ := [256 * q.a.val + q.b.val, 256 * q.c.val + q.d.val]

/-- The texts of IPv6 addresses; `::` stands for at least one group. -/
inductive Ipv6Literal where
  | full (groups : List HexGroup) (h : groups.length = 8)
  | compressed (head tail : List HexGroup) (h : head.length + tail.length ≤ 7)
  | fullQuad (groups : List HexGroup) (quad : DottedQuad) (h : groups.length = 6)
  | compressedQuad (head tail : List HexGroup) (quad : DottedQuad) (h : head.length + tail.length ≤ 5)

namespace Ipv6Literal

def joinColons (groups : List (List Char)) : List Char := [':'].intercalate groups

def text : Ipv6Literal → List Char
  | full groups _ => joinColons (groups.map HexGroup.text)
  | compressed head tail _ => joinColons (head.map HexGroup.text) ++ ':' :: ':' :: joinColons (tail.map HexGroup.text)
  | fullQuad groups quad _ => joinColons (groups.map HexGroup.text ++ [quad.text])
  | compressedQuad head tail quad _ =>
    joinColons (head.map HexGroup.text) ++ ':' :: ':' :: joinColons (tail.map HexGroup.text ++ [quad.text])

def values (groups : List HexGroup) : List ℕ := groups.map fun g => numeral 16 g.text

/-- The address, as eight numbers. -/
def address : Ipv6Literal → List ℕ
  | full groups _ => values groups
  | compressed head tail _ => values head ++ List.replicate (8 - head.length - tail.length) 0 ++ values tail
  | fullQuad groups quad _ => values groups ++ quad.groups
  | compressedQuad head tail quad _ =>
    values head ++ List.replicate (6 - head.length - tail.length) 0 ++ values tail ++ quad.groups

def hasQuad : Ipv6Literal → Bool
  | full _ _ => false
  | compressed _ _ _ => false
  | fullQuad _ _ _ => true
  | compressedQuad _ _ _ _ => true

end Ipv6Literal

/-- The address is unspecified, loopback, link-local or unique local, or embeds a reserved IPv4
address. -/
def isReservedIpv6 (groups : List ℕ) : Bool :=
  let g := fun i => groups.getD i 0
  groups = [0, 0, 0, 0, 0, 0, 0, 0] || groups = [0, 0, 0, 0, 0, 0, 0, 1] ||
    (0xfe80 ≤ g 0 && g 0 ≤ 0xfebf) || (0xfc00 ≤ g 0 && g 0 ≤ 0xfdff) ||
    ((groups.take 5).all (fun n => n = 0) && (g 5 = 0 || g 5 = 0xffff) && isReservedIpv4 (65536 * g 6 + g 7))

end Arald
