import Mathlib

/-!
# Cutting a list into chunks

Chunks of one size, the last one perhaps shorter; an empty list makes one empty chunk.
-/

namespace Foundations

variable {α : Type*} {size : ℕ} {l : List α} {index : ℕ}

def chunk (size : ℕ) (l : List α) (index : ℕ) : List α := (l.drop (index * size)).take size

/-- `max 1 ⌈length / size⌉`. -/
def chunkCount (size : ℕ) (l : List α) : ℕ := max 1 ((l.length + size - 1) / size)

theorem chunkCount_pos (size : ℕ) (l : List α) : 0 < chunkCount size l :=
  lt_of_lt_of_le Nat.one_pos (le_max_left ..)

theorem length_le_chunkCount (hsize : 0 < size) (l : List α) : l.length ≤ chunkCount size l * size := by
  have hdiv := Nat.lt_mul_div_succ (l.length + size - 1) hsize
  rw [Nat.mul_add, Nat.mul_one, Nat.mul_comm] at hdiv
  have hmax := Nat.mul_le_mul_right size (le_max_right 1 ((l.length + size - 1) / size))
  rw [chunkCount]
  omega

theorem take_eq_flatMap_chunk (size : ℕ) (l : List α) (count : ℕ) :
    l.take (count * size) = (List.range count).flatMap (chunk size l) := by
  induction count with
  | zero => simp
  | succ count ih =>
    rw [Nat.succ_mul, List.take_add, ih, List.range_succ, List.flatMap_append]
    simp [chunk]

/-- The chunks of a list are the list. -/
theorem flatMap_chunk (hsize : 0 < size) (l : List α) :
    (List.range (chunkCount size l)).flatMap (chunk size l) = l := by
  rw [← take_eq_flatMap_chunk]
  exact List.take_of_length_le (length_le_chunkCount hsize l)

/-- A chunk of a list that is not empty is not empty. -/
theorem chunk_ne_nil (hsize : 0 < size) (hne : l ≠ []) (hindex : index < chunkCount size l) :
    chunk size l index ≠ [] := by
  have hlength : 0 < l.length := List.length_pos_iff.mpr hne
  have hstart : index * size < l.length := by
    rw [chunkCount] at hindex
    rcases lt_max_iff.mp hindex with hone | hceil
    · have hzero : index = 0 := by omega
      simpa [hzero] using hlength
    · have hle := (Nat.le_div_iff_mul_le hsize).mp hceil
      rw [Nat.succ_mul] at hle
      omega
  have hchunk : 0 < (chunk size l index).length := by
    rw [chunk, List.length_take, List.length_drop]
    omega
  exact List.length_pos_iff.mp hchunk

end Foundations
