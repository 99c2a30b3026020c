import Arald.Foundations.Outcomes
import Arald.Content.Metadata

/-!
# Reading buffers

Bytes and words of untrusted buffers. A read outside of the buffer is told apart from an error
that the code throws.
-/

namespace Arald

open Foundations

/-- `buffer.readUInt32BE(offset)`, `none` when it throws. -/
def readUInt32BE (buffer : Buffer) (offset : ℕ) : Option ℕ :=
  match buffer.drop offset with
  | a :: b :: c :: d :: _ => some (((a.toNat * 256 + b.toNat) * 256 + c.toNat) * 256 + d.toNat)
  | _ => none

/-- `buffer.subarray(start, end)`. -/
def subarray (buffer : Buffer) (first last : ℕ) : Buffer := (buffer.drop first).take (last - first)

/-- How a reader of bytes may fail. -/
inductive Fault
  | thrown (message : String)
  | outside
  deriving DecidableEq

def Fault.IsThrown : Fault → Prop
  | .thrown _ => True
  | .outside => False

def byteAt (bytes : Buffer) (i : ℕ) : Except Fault UInt8 :=
  match bytes[i]? with
  | some byte => .ok byte
  | none => .error .outside

/-- `view.getUint32(offset)`. -/
def getUint32 (bytes : Buffer) (offset : ℕ) : Except Fault ℕ :=
  match readUInt32BE bytes offset with
  | some n => .ok n
  | none => .error .outside

/-- Four bytes, the most significant first. -/
def uint32Bytes (n : ℕ) : Buffer :=
  [UInt8.ofNat (n / 2 ^ 24), UInt8.ofNat (n / 2 ^ 16), UInt8.ofNat (n / 2 ^ 8), UInt8.ofNat n]

section
variable {bytes : Buffer} {i n offset : ℕ}

theorem readUInt32BE_append (before rest : Buffer) (offset : ℕ) :
    readUInt32BE (before ++ rest) (before.length + offset) = readUInt32BE rest offset := by
  rw [readUInt32BE, readUInt32BE, List.drop_length_add_append]

/-- A word within the bytes is read. -/
theorem readUInt32BE_isSome {bytes : Buffer} {offset : ℕ} (h : offset + 4 ≤ bytes.length) :
    (readUInt32BE bytes offset).isSome = true := by
  have hlength : 4 ≤ (bytes.drop offset).length := by
    rw [List.length_drop]
    omega
  rw [readUInt32BE]
  match hdrop : bytes.drop offset, hlength with
  | _ :: _ :: _ :: _ :: _, _ => rfl

/-- Four bytes are the size that they spell. -/
theorem size_bytes (a b c d : UInt8) :
    let size := ((a.toNat * 256 + b.toNat) * 256 + c.toNat) * 256 + d.toNat
    [UInt8.ofNat (size / 2 ^ 24), UInt8.ofNat (size / 2 ^ 16), UInt8.ofNat (size / 2 ^ 8), UInt8.ofNat size] =
      [a, b, c, d] := by
  have ha := a.toNat_lt
  have hb := b.toNat_lt
  have hc := c.toNat_lt
  have hd := d.toNat_lt
  intro size
  have hsize : size = ((a.toNat * 256 + b.toNat) * 256 + c.toNat) * 256 + d.toNat := rfl
  rw [List.cons.injEq, List.cons.injEq, List.cons.injEq, List.cons.injEq]
  refine ⟨?_, ?_, ?_, ?_, rfl⟩ <;>
    · apply UInt8.toNat_inj.mp
      rw [UInt8.toNat_ofNat']
      omega

theorem readUInt32BE_lt (h : readUInt32BE bytes offset = some n) : n < 2 ^ 32 := by
  rw [readUInt32BE] at h
  split at h
  · rename_i a b c d rest _
    have ha := a.toNat_lt
    have hb := b.toNat_lt
    have hc := c.toNat_lt
    have hd := d.toNat_lt
    have hn := Option.some.inj h
    omega
  · cases h

theorem readUInt32BE_uint32Bytes (h : n < 2 ^ 32) (rest : Buffer) :
    readUInt32BE (uint32Bytes n ++ rest) 0 = some n := by
  simp only [readUInt32BE, uint32Bytes, List.cons_append, List.drop_zero, UInt8.toNat_ofNat', Option.some.injEq]
  omega

theorem getUint32_append (h : n < 2 ^ 32) (before rest : Buffer) :
    getUint32 (before ++ (uint32Bytes n ++ rest)) before.length = .ok n := by
  have hread := readUInt32BE_append before (uint32Bytes n ++ rest) 0
  rw [Nat.add_zero, readUInt32BE_uint32Bytes h] at hread
  rw [getUint32, hread]

theorem ensures_getUint32 (h : offset + 4 ≤ bytes.length) :
    Ensures Fault.IsThrown (fun n => n < 2 ^ 32) (getUint32 bytes offset) := by
  obtain ⟨n, hn⟩ := Option.isSome_iff_exists.mp (readUInt32BE_isSome h)
  rw [getUint32, hn]
  exact readUInt32BE_lt hn

theorem byteAt_of_lt (h : i < bytes.length) : byteAt bytes i = .ok bytes[i] := by
  rw [byteAt, List.getElem?_eq_getElem h]

theorem byteAt_length_add (before rest : Buffer) (i : ℕ) : byteAt (before ++ rest) (before.length + i) = byteAt rest i := by
  rw [byteAt, byteAt, List.getElem?_append_right (Nat.le_add_right _ _), Nat.add_sub_cancel_left]

theorem ensures_byteAt (h : i < bytes.length) : Ensures Fault.IsThrown (fun _ => True) (byteAt bytes i) := by
  rw [byteAt_of_lt h]
  trivial

theorem subarray_append (before middle rest : Buffer) :
    subarray (before ++ (middle ++ rest)) before.length (before.length + middle.length) = middle := by
  rw [subarray, List.drop_left, Nat.add_sub_cancel_left, List.take_left]

end
end Arald
