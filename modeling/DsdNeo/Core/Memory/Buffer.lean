import Mathlib.Data.Vector.Basic

/-!
# Checked copies between buffers

A buffer has a size that its type carries. Loads and stores of runs of its bytes are partial: one
that does not lie within the buffer has no result, so that a program that has one never passed an
end. A file is read at a place, and may give less than was asked for.
-/

namespace DsdNeo.Memory

open List

variable {α : Type*} {n off len : ℕ}

/-- The bytes of a buffer from a place on. -/
def load (buf : List.Vector α n) (off len : ℕ) : Option (List α) :=
  if off + len ≤ n then some ((buf.toList.drop off).take len) else none

/-- The buffer with bytes put from a place on. -/
def store (buf : List.Vector α n) (off : ℕ) (data : List α) : Option (List.Vector α n) :=
  if h : off + data.length ≤ n then
    some ⟨buf.toList.take off ++ data ++ buf.toList.drop (off + data.length), by simp; omega⟩
  else none

/-- A load inside the buffer succeeds with the bytes there. -/
theorem load_eq (buf : List.Vector α n) (off len : ℕ) (h : off + len ≤ n) :
    load buf off len = some ((buf.toList.drop off).take len) := if_pos h

theorem length_load (buf : List.Vector α n) (h : off + len ≤ n) :
    ((buf.toList.drop off).take len).length = len := by
  simp
  omega

/-- A store inside the buffer succeeds, and leaves what stands before it. -/
theorem store_spec (buf : List.Vector α n) (off : ℕ) (data : List α) (h : off + data.length ≤ n) :
    ∃ buf', store buf off data = some buf' ∧
      buf'.toList.take (off + data.length) = buf.toList.take off ++ data := by
  refine ⟨_, dif_pos h, ?_⟩
  have hlen : off + data.length = (buf.toList.take off ++ data).length := by
    simp
    omega
  rw [List.Vector.toList_mk, hlen, take_left]

/-- The bytes of a file from a place on. -/
def slice (file : ℕ → α) (pos len : ℕ) : List α := (List.range len).map fun i => file (pos + i)

@[simp] theorem length_slice (file : ℕ → α) (pos len : ℕ) : (slice file pos len).length = len := by
  simp [slice]

/-- Two slices in a row are one. -/
theorem slice_append (file : ℕ → α) (pos a b : ℕ) :
    slice file pos a ++ slice file (pos + a) b = slice file pos (a + b) := by
  simp [slice, range_add, Nat.add_assoc]

/-- A part of a slice is a slice. -/
theorem take_drop_slice (file : ℕ → α) (pos : ℕ) {a : ℕ} (h : off + len ≤ a) :
    ((slice file pos a).drop off).take len = slice file (pos + off) len := by
  have ha : a = off + len + (a - (off + len)) := by omega
  rw [ha, ← slice_append, ← slice_append, append_assoc,
    drop_append_of_le_length (by simp), drop_of_length_le (by simp), nil_append,
    take_append_of_le_length (by simp), take_of_length_le (by simp)]

end DsdNeo.Memory
