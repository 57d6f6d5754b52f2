import DsdNeo.Core.Bits.Sizes
import Mathlib.Data.Nat.Bitwise
import Mathlib.Tactic.FinCases

/-!
# 128-bit integer vectors

The SSE2 operations on four 32-bit, eight 16-bit or sixteen 8-bit lanes, each by
what it does to a lane. A comparison yields a mask, all ones or zero, in every
lane; masks select between vectors, survive signed saturation to narrower lanes
and are collected from the top bits of the bytes.
-/

namespace DsdNeo.Sse2

/-- A vector of `n` lanes of `w` bits. -/
abbrev Lanes (n w : ℕ) := Vector (BitVec w) n

variable {n w : ℕ}

/-- `_mm_set1_epi8` and `_mm_set1_epi32`. -/
def set1 (x : BitVec w) : Lanes n w := Vector.replicate n x

/-- `_mm_add_epi8` and `_mm_add_epi32`. -/
def add (a b : Lanes n w) : Lanes n w := Vector.zipWith (· + ·) a b

/-- `_mm_sub_epi32`. -/
def sub (a b : Lanes n w) : Lanes n w := Vector.zipWith (· - ·) a b

/-- `_mm_and_si128`. -/
def and (a b : Lanes n w) : Lanes n w := Vector.zipWith (· &&& ·) a b

/-- `_mm_or_si128`. -/
def or (a b : Lanes n w) : Lanes n w := Vector.zipWith (· ||| ·) a b

/-- `_mm_andnot_si128`: the second where the first is clear. -/
def andnot (a b : Lanes n w) : Lanes n w := Vector.zipWith (fun x y => ~~~x &&& y) a b

/-- The mask of a condition. -/
def mask (w : ℕ) (p : Bool) : BitVec w := bif p then BitVec.allOnes w else 0

/-- `_mm_cmpgt_epi32`: signed. -/
def cmpgt (a b : Lanes n w) : Lanes n w := Vector.zipWith (fun x y => mask w (y.slt x)) a b

/-- `_mm_cmpeq_epi32`. -/
def cmpeq (a b : Lanes n w) : Lanes n w := Vector.zipWith (fun x y => mask w (x == y)) a b

/-- `_mm_unpacklo_epi32`. -/
def unpacklo (a b : Lanes 4 w) : Lanes 4 w := #v[a.get 0, b.get 0, a.get 1, b.get 1]

/-- `_mm_unpackhi_epi32`. -/
def unpackhi (a b : Lanes 4 w) : Lanes 4 w := #v[a.get 2, b.get 2, a.get 3, b.get 3]

/-- `_mm_shuffle_ps` with `_MM_SHUFFLE(z, y, x, w)`: two lanes of each argument. -/
def shuffle (a b : Lanes 4 w) (z y x v : Fin 4) : Lanes 4 w :=
    #v[a.get v, a.get x, b.get y, b.get z]

/-- Signed saturation of a lane. -/
def saturate {w : ℕ} (v : ℕ) (x : BitVec w) : BitVec v :=
  BitVec.ofInt v (max (-2 ^ (v - 1)) (min x.toInt (2 ^ (v - 1) - 1)))

/-- `_mm_packs_epi32`: the lanes of both, at half the width. -/
def packs32 (a b : Lanes 4 32) : Lanes 8 16 :=
  #v[saturate 16 (a.get 0), saturate 16 (a.get 1), saturate 16 (a.get 2), saturate 16 (a.get 3),
    saturate 16 (b.get 0), saturate 16 (b.get 1), saturate 16 (b.get 2), saturate 16 (b.get 3)]

/-- `_mm_packs_epi16`. -/
def packs16 (a b : Lanes 8 16) : Lanes 16 8 :=
  #v[saturate 8 (a.get 0), saturate 8 (a.get 1), saturate 8 (a.get 2), saturate 8 (a.get 3),
    saturate 8 (a.get 4), saturate 8 (a.get 5), saturate 8 (a.get 6), saturate 8 (a.get 7),
    saturate 8 (b.get 0), saturate 8 (b.get 1), saturate 8 (b.get 2), saturate 8 (b.get 3),
    saturate 8 (b.get 4), saturate 8 (b.get 5), saturate 8 (b.get 6), saturate 8 (b.get 7)]

theorem quarter_lt (k : Fin 16) : k.val / 4 < 4 := by omega

/-- `_mm_movemask_epi8` of 32-bit lanes: the top bit of each of the sixteen bytes. -/
def movemask (a : Lanes 4 32) : ℕ :=
  Nat.ofBits fun k : Fin 16 => (a.get ⟨k.val / 4, quarter_lt k⟩).getLsbD (8 * (k.val % 4) + 7)

@[simp] theorem getElem_set1 (x : BitVec w) (i : ℕ) (h : i < n) : (set1 x : Lanes n w)[i] = x := by
  simp [set1]

@[simp] theorem getElem_add (a b : Lanes n w) (i : ℕ) (h : i < n) :
    (add a b)[i] = a[i] + b[i] := by simp [add]

@[simp] theorem getElem_sub (a b : Lanes n w) (i : ℕ) (h : i < n) :
    (sub a b)[i] = a[i] - b[i] := by simp [sub]

@[simp] theorem getElem_and (a b : Lanes n w) (i : ℕ) (h : i < n) :
    (and a b)[i] = a[i] &&& b[i] := by simp [and]

@[simp] theorem getElem_or (a b : Lanes n w) (i : ℕ) (h : i < n) :
    (or a b)[i] = a[i] ||| b[i] := by simp [or]

@[simp] theorem getElem_andnot (a b : Lanes n w) (i : ℕ) (h : i < n) :
    (andnot a b)[i] = ~~~a[i] &&& b[i] := by simp [andnot]

@[simp] theorem getElem_cmpgt (a b : Lanes n w) (i : ℕ) (h : i < n) :
    (cmpgt a b)[i] = mask w (b[i].slt a[i]) := by simp [cmpgt]

@[simp] theorem getElem_cmpeq (a b : Lanes n w) (i : ℕ) (h : i < n) :
    (cmpeq a b)[i] = mask w (a[i] == b[i]) := by simp [cmpeq]

@[simp] theorem mask_and (p : Bool) (x : BitVec w) : mask w p &&& x = bif p then x else 0 := by
  cases p <;> simp [mask]

theorem mask_andnot (p : Bool) (x : BitVec w) : ~~~(mask w p) &&& x = bif p then 0 else x := by
  cases p <;> simp [mask]

/-- Two masked lanes joined select one of the two. -/
theorem mask_select (p : Bool) (x y : BitVec w) :
    mask w p &&& x ||| ~~~(mask w p) &&& y = bif p then x else y := by
  rw [mask_and, mask_andnot]
  cases p <;> simp

/-- Masks meet as their conditions do. -/
theorem mask_and_mask (p q : Bool) : mask w p &&& mask w q = mask w (p && q) := by
  cases p <;> cases q <;> simp [mask]

/-- Packing to words keeps a mask a mask. -/
theorem saturate_mask (p : Bool) : saturate 16 (mask 32 p) = mask 16 p := by
  cases p <;> decide

/-- Packing to bytes keeps a mask a mask. -/
theorem saturate_mask_byte (p : Bool) : saturate 8 (mask 16 p) = mask 8 p := by
  cases p <;> decide

/-- All mask bits are set where every lane's condition holds. -/
theorem movemask_eq_iff {a : Lanes 4 32} {p : Fin 4 → Bool} (h : ∀ i, a.get i = mask 32 (p i)) :
    movemask a = 0xFFFF ↔ ∀ i, p i = true := by
  have hbit : ∀ (q : Bool) (k : Fin 4), (mask 32 q).getLsbD (8 * k.val + 7) = q := by decide
  have hbyte : ∀ k : Fin 16, (a.get ⟨k.val / 4, by omega⟩).getLsbD (8 * (k.val % 4) + 7) =
      p ⟨k.val / 4, by omega⟩ := by
    intro k
    have hlane : a.get ⟨k.val / 4, by omega⟩ = mask 32 (p ⟨k.val / 4, by omega⟩) :=
      h ⟨k.val / 4, by omega⟩
    rw [hlane]
    exact hbit _ ⟨k.val % 4, Nat.mod_lt _ (by decide)⟩
  have hmask : movemask a = Nat.ofBits fun k : Fin 16 => p ⟨k.val / 4, by omega⟩ :=
    congrArg Nat.ofBits (funext hbyte)
  rw [hmask]
  constructor
  · intro hall i
    have htest := congrArg (Nat.testBit · (4 * i.val)) hall
    rw [Nat.testBit_ofBits_lt _ _ (by omega)] at htest
    have hones : ∀ j : Fin 4, Nat.testBit 0xFFFF (4 * j.val) = true := by decide
    rw [hones] at htest
    have hidx : (⟨4 * i.val / 4, by omega⟩ : Fin 4) = i := Fin.ext (by simp)
    rw [← hidx]
    exact htest
  · intro hall
    simp only [hall]
    rfl

/-- A signed comparison of lanes below the sign bit is the unsigned one. -/
theorem slt_eq_lt {x y : BitVec 32} (hx : x.toNat < 2 ^ 31) (hy : y.toNat < 2 ^ 31) :
    x.slt y = decide (x < y) := by
  rw [BitVec.slt, BitVec.toInt_eq_toNat_of_lt (by omega), BitVec.toInt_eq_toNat_of_lt (by omega)]
  simp [BitVec.lt_def]

end DsdNeo.Sse2
