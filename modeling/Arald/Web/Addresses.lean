import Mathlib

/-!
# Addresses of clients

`normalizeAddress` of `machine-address.ts` and `ipLimiterKey` of
`auth-throttle.ts`: the texts of one IPv6 address come down to its eight groups
without leading zeros, and an IPv4 address that is mapped into IPv6 to its IPv4
text. An address has no line break.
-/

namespace Arald

/-- `ip.replace(/^::ffff:/i, "")`. -/
def dropMappedPrefix (ip : List Char) : List Char :=
  if (ip.take 7).map Char.toLower = "::ffff:".toList then ip.drop 7 else ip

/-- `ip.replace(/%.*$/, "")`. -/
def dropScope (ip : List Char) : List Char := ip.takeWhile fun c => c ≠ '%'

/-- `ip.includes("::")`. -/
def hasDoubleColon (ip : List Char) : Bool := (ip.zip ip.tail).any fun pair => pair = (':', ':')

/-- The groups of an IPv6 text, with those that `::` stands for. -/
def expandIpv6 (ip : List Char) : List (List Char) :=
  let groups := (ip.map Char.toLower).splitOn ':'
  if [] ∈ groups ∧ hasDoubleColon ip = true then
    let head := groups.takeWhile fun g => g ≠ []
    let tail := (groups.dropWhile fun g => g ≠ []).tail.filter fun g => g ≠ []
    head ++ List.replicate (8 - head.length - tail.length) ['0'] ++ tail
  else groups

/-- `g.replace(/^0+(?=.)/, "")`: a group of zeros keeps one. -/
def stripZeros (g : List Char) : List Char :=
  match g.dropWhile fun c => c = '0' with
  | [] => g.take 1
  | rest => rest

def joinGroups (groups : List (List Char)) : List Char := [':'].intercalate groups

def normalizeAddress (raw : Option String) : String :=
  let ip := dropScope (dropMappedPrefix (raw.getD "?").toList)
  if ':' ∉ ip then String.ofList ip
  else String.ofList (joinGroups ((expandIpv6 ip).map stripZeros))

/-- `ip.includes(":")`. -/
def isIpv6 (ip : String) : Bool := ip.toList.contains ':'

/-- The /64 prefix of an IPv6 address, the address itself otherwise. -/
def ipLimiterKey (raw : Option String) : String :=
  let ip := normalizeAddress raw
  if isIpv6 ip then String.ofList (joinGroups ((ip.toList.splitOn ':').take 4)) else ip

example : normalizeAddress (some "::ffff:192.168.1.7") = "192.168.1.7" := by decide

example : normalizeAddress (some "FE80::0A:1%eth0") = "fe80:0:0:0:0:0:a:1" := by decide

example : ipLimiterKey (some "2001:db8::1") = "2001:db8:0:0" := by decide

end Arald
