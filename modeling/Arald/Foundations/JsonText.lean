import Arald.Foundations.JsValue

/-!
# JSON as bytes

What a runtime does with a value that is written as JSON in UTF-8, and read back.
-/

namespace Foundations

structure JsonRuntime (Text : Type*) where
  /-- `JSON.stringify`. -/
  stringify : JsValue → Text
  /-- `JSON.parse`, `none` when it throws. -/
  parse : Text → Option JsValue
  /-- `TextEncoder.encode`. -/
  encode : Text → List UInt8
  /-- `TextDecoder.decode`. -/
  decode : List UInt8 → Text
  /-- The text of an integral number. -/
  numeral : ℕ → String

namespace JsonRuntime

variable {Text : Type*} (rt : JsonRuntime Text) {v : JsValue}

def write (v : JsValue) : List UInt8 := rt.encode (rt.stringify v)

def read (bytes : List UInt8) : Option JsValue := rt.parse (rt.decode bytes)

/-- Decoding inverts encoding on the text of a value, and parsing inverts its writing. -/
def Inverts (v : JsValue) : Prop :=
  rt.decode (rt.encode (rt.stringify v)) = rt.stringify v ∧ rt.parse (rt.stringify v) = some v

theorem read_write (h : rt.Inverts v) : rt.read (rt.write v) = some v := by
  rw [read, write, h.1, h.2]

end JsonRuntime

namespace JsValue

def ofInt (n : ℤ) : JsValue := num (.finite n)

def ofStrings (texts : List String) : JsValue := arr (texts.map str)

/-- The value is an integral number. -/
def integer? (v : JsValue) : Option ℤ := v.finite?.bind fun q => if q.den = 1 then some q.num else none

/-- The strings of an array, none of anything else. -/
def strings (v : JsValue) : List String := (v.array?.getD []).filterMap string?

@[simp] theorem integer?_ofInt (n : ℤ) : (ofInt n).integer? = some n := rfl

@[simp] theorem strings_ofStrings (texts : List String) : (ofStrings texts).strings = texts := by
  rw [strings, ofStrings, array?, Option.getD_some, List.filterMap_map]
  exact List.filterMap_some

end JsValue

end Foundations
