import Arald.Ingest.Payloads

/-!
# Requests to the HTTP servers

What a handler reads of a request, and how it can end: with a response, without
one because the connection is gone, or with an exception that leaves it. The
parser of request targets belongs to the runtime, and throws on some of them.
-/

namespace Arald

open Foundations

/-! ### Percent-encoding -/

/-- The octets that a percent-encoded text stands for. -/
def percentOctets : List Char → Option Buffer
  | [] => some []
  | '%' :: a :: b :: rest => do
    let high ← hexDigit? a
    let low ← hexDigit? b
    let octets ← percentOctets rest
    return UInt8.ofNat (16 * high + low) :: octets
  | c :: rest => if c = '%' then none else (percentOctets rest).map fun octets => utf8 (c.toString) ++ octets

/-- `decodeURIComponent`, `none` when it throws. -/
def decodeURIComponent (s : String) : Option String :=
  (percentOctets s.toList).bind fun octets => String.fromUTF8? ⟨octets.toArray⟩

/-! ### Requests -/

/-- What a handler uses of `new URL(...)`. -/
structure RequestUrl where
  pathname : String
  searchParams : List (String × String)

/-- `url.searchParams.get(name)`. -/
def RequestUrl.param? (u : RequestUrl) (name : String) : Option String :=
  (u.searchParams.find? fun e => e.1 = name).map Prod.snd

structure HttpPlatform extends Platform where
  /-- `new URL(target, "http://localhost")`, `none` when it throws. -/
  newUrl : String → Option RequestUrl

/-- How the body of a request arrives. -/
inductive BodyArrival where
  | complete (raw : Buffer)
  | stalled
  | broken

inductive BodyFailure where
  | tooLarge
  | timedOut
  | unreadable

def readRequestBody (maxBytes : ℕ) : BodyArrival → Except BodyFailure Buffer
  | .complete raw => if maxBytes < raw.length then .error .tooLarge else .ok raw
  | .stalled => .error .timedOut
  | .broken => .error .unreadable

structure HttpRequest where
  method : String
  url : Option String
  authorization : Option String
  body : BodyArrival
  /-- Nothing can be answered any more when a failure of the body is noticed. -/
  connectionGone : Bool

inductive ResponseBody where
  | json (v : JsValue)
  | text (s : String)

structure HttpResponse where
  status : ℕ
  body : ResponseBody

inductive HandlerEnd where
  | responded (r : HttpResponse)
  | connectionGone
  | threw

def sendJson (status : ℕ) (v : JsValue) : HandlerEnd := .responded ⟨status, .json v⟩

def sendError (status : ℕ) (error : String) : HandlerEnd := sendJson status (.obj [("error", .str error)])

/-! ### A sample platform -/

/-- Throws on `//`, whose host is empty, and leaves a plain path as it is. -/
def sampleHttpPlatform (texts : List JsValue) : HttpPlatform :=
  { samplePlatform texts with newUrl := fun target => if target = "//" then none else some ⟨target, []⟩ }

end Arald
