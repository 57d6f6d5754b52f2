import Mathlib.Data.BitVec
import Mathlib.Data.List.TakeWhile
import Mathlib.Data.Nat.Digits.Lemmas

/-!
# Numbers in byte texts

Texts are lists of bytes without a terminator. The readers take what a text starts
with and leave the rest, as the C library does.
-/

namespace DsdNeo.Text

open List

/-- A text, byte by byte. -/
abbrev Bytes := List (BitVec 8)

/-- The six characters the C locale calls white space. -/
def isSpace (c : BitVec 8) : Bool :=
  c = 0x20 || c = 0x09 || c = 0x0A || c = 0x0B || c = 0x0C || c = 0x0D

/-- A decimal digit. -/
def isDigit (c : BitVec 8) : Bool := decide (0x30 ≤ c) && decide (c ≤ 0x39)

/-- The value of a decimal digit. -/
def digitValue (c : BitVec 8) : ℕ := c.toNat - 0x30

/-- A text without its leading white space. -/
def skipSpace (t : Bytes) : Bytes := t.dropWhile isSpace

/-- The value of a hexadecimal digit. -/
def hexNibbleValue (c : BitVec 8) : Option ℕ :=
  if isDigit c then some (digitValue c)
  else if 0x61 ≤ c ∧ c ≤ 0x66 then some (c.toNat - 0x61 + 10)
  else if 0x41 ≤ c ∧ c ≤ 0x46 then some (c.toNat - 0x41 + 10)
  else none

/-- The value of decimal digits, most significant first. -/
def decimalValue (digits : Bytes) : ℕ := digits.foldl (fun v c => v * 10 + digitValue c) 0

/-- `strtoull` in base ten: the value and the rest, nothing where there is no number or it
overflows. -/
def strtoull10 (t : Bytes) : Option (BitVec 64 × Bytes) :=
  let t := skipSpace t
  let negative := t.head? = some 0x2D
  let t := if negative ∨ t.head? = some 0x2B then t.tail else t
  let digits := t.takeWhile isDigit
  let value := decimalValue digits
  if digits = [] ∨ value ≥ 2 ^ 64 then none
  else
    let v := BitVec.ofNat 64 value
    some (if negative then -v else v, t.dropWhile isDigit)

/-- `dsd_parse_uint64_strict` in base ten. -/
def parseUint64Strict (t : Bytes) (maxValue : ℕ) : Option (BitVec 64) :=
  if t = [] ∨ t.head? = some 0x2D then none
  else
    match strtoull10 t with
    | some (v, []) => if v.toNat > maxValue then none else some v
    | _ => none

/-- `dsd_parse_uint16_strict` in base ten. -/
def parseUint16Strict (t : Bytes) (maxValue : ℕ) : Option (BitVec 16) :=
  (parseUint64Strict t maxValue).map fun v => v.setWidth 16

/-- The digits of `dsd_parse_hex_u64_n`. -/
def hexFold : Bytes → BitVec 64 → Option (BitVec 64)
  | [], v => some v
  | c :: t, v =>
    match hexNibbleValue c with
    | some n => hexFold t (v <<< 4 ||| BitVec.ofNat 64 n)
    | none => none

/-- `dsd_parse_hex_u64_n`: one to sixteen digits. -/
def parseHexU64 (hex : Bytes) : Option (BitVec 64) :=
  if hex.length = 0 ∨ hex.length > 16 then none else hexFold hex 0

/-- The pairs of `dsd_parse_hex_bytes_exact`. -/
def hexPairs : Bytes → Option (List (BitVec 8))
  | [] => some []
  | [_] => none
  | hi :: lo :: t =>
    match hexNibbleValue hi, hexNibbleValue lo, hexPairs t with
    | some h, some l, some rest => some (BitVec.ofNat 8 (h * 16 + l) :: rest)
    | _, _, _ => none

/-- `dsd_parse_hex_bytes_exact`: twice as many digits as bytes wanted. -/
def parseHexBytesExact (hex : Bytes) (outLen : ℕ) : Option (List (BitVec 8)) :=
  if hex.length = 0 ∨ hex.length ≠ 2 * outLen then none else hexPairs hex

/-!
# Numbers written as texts

What the C library writes for a number and reads back from it: decimal numbers with or without
a sign, and upper-case hexadecimal ones padded with zeroes.
-/

/-- A digit of a number, in upper case. -/
def digitChar (d : ℕ) : BitVec 8 := BitVec.ofNat 8 (if d < 10 then 0x30 + d else 0x41 + (d - 10))

/-- The digits of a number, most significant first. -/
def digitsOf (b n : ℕ) : List ℕ := if n = 0 then [0] else (Nat.digits b n).reverse

/-- A number in some base. -/
def numeral (b n : ℕ) : Bytes := (digitsOf b n).map digitChar

/-- A signed number in base ten. -/
def signedDecimal (i : ℤ) : Bytes :=
  if i < 0 then 0x2D :: numeral 10 i.natAbs else numeral 10 i.natAbs

/-- A text padded on the left with zeroes. -/
def zeroPadded (width : ℕ) (t : Bytes) : Bytes := List.replicate (width - t.length) 0x30 ++ t

/-- `strtol` in base ten, of a `long` of 64 bits: the value and the rest, nothing where there is no
number or it is out of range. -/
def strtol10 (t : Bytes) : Option (ℤ × Bytes) :=
  let t := skipSpace t
  let negative := t.head? = some 0x2D
  let t := if negative ∨ t.head? = some 0x2B then t.tail else t
  let digits := t.takeWhile isDigit
  let value : ℤ := if negative then -(decimalValue digits : ℤ) else decimalValue digits
  if digits = [] ∨ value < -(2 ^ 63) ∨ 2 ^ 63 ≤ value then none
  else some (value, t.dropWhile isDigit)

variable {d b n : ℕ}

theorem isDigit_digitChar (h : d < 10) : isDigit (digitChar d) = true := by
  have hall : ∀ d : Fin 10, isDigit (digitChar d) = true := by decide
  exact hall ⟨d, h⟩

theorem digitValue_digitChar (h : d < 10) : digitValue (digitChar d) = d := by
  have hall : ∀ d : Fin 10, digitValue (digitChar d) = d := by decide
  exact hall ⟨d, h⟩

theorem hexNibbleValue_digitChar (h : d < 16) : hexNibbleValue (digitChar d) = some d := by
  have hall : ∀ d : Fin 16, hexNibbleValue (digitChar d) = some d.val := by decide
  exact hall ⟨d, h⟩

theorem digitsOf_ne_nil (b n : ℕ) : digitsOf b n ≠ [] := by
  rw [digitsOf]
  split
  · simp
  · rename_i hn
    simpa using Nat.digits_ne_nil_iff_ne_zero.mpr hn

theorem lt_of_mem_digitsOf (hb : 1 < b) (h : d ∈ digitsOf b n) : d < b := by
  rw [digitsOf] at h
  split at h
  · simp only [mem_singleton] at h
    omega
  · exact Nat.digits_lt_base hb (mem_reverse.mp h)

theorem length_digitsOf_le {k : ℕ} (hb : 1 < b) (hk : 0 < k) (h : n < b ^ k) :
    (digitsOf b n).length ≤ k := by
  rw [digitsOf]
  split
  · rw [length_singleton]
    omega
  · rw [length_reverse]
    exact (Nat.digits_length_le_iff hb n).mpr h

/-- A number from its digits, one after the other. -/
theorem foldl_digitsOf (b n : ℕ) : (digitsOf b n).foldl (fun v d => v * b + d) 0 = n := by
  rw [digitsOf]
  split
  · rename_i hn
    simp [hn]
  · rw [foldl_reverse]
    have hfold := Nat.ofDigits_eq_foldr b (Nat.digits b n)
    rw [Nat.ofDigits_digits] at hfold
    simpa [Nat.add_comm, Nat.mul_comm] using hfold.symm

theorem decimalValue_numeral (n : ℕ) : decimalValue (numeral 10 n) = n := by
  have hall : ∀ ds : List ℕ, (∀ d ∈ ds, d < 10) → ∀ v,
      (ds.map digitChar).foldl (fun v c => v * 10 + digitValue c) v =
        ds.foldl (fun v d => v * 10 + d) v := by
    intro ds
    induction ds with
    | nil => exact fun _ _ => rfl
    | cons d ds ih =>
      intro hds v
      rw [map_cons, foldl_cons, foldl_cons, digitValue_digitChar (hds d (by simp))]
      exact ih (fun d' h' => hds d' (by simp [h'])) _
  rw [decimalValue, numeral, hall _ (fun d hd => lt_of_mem_digitsOf (by omega) hd) 0,
    foldl_digitsOf]

theorem numeral_ne_nil (b n : ℕ) : numeral b n ≠ [] := by
  simpa [numeral] using digitsOf_ne_nil b n

theorem isDigit_of_mem_numeral {c : BitVec 8} (h : c ∈ numeral 10 n) : isDigit c = true := by
  obtain ⟨d, hd, rfl⟩ := mem_map.mp h
  exact isDigit_digitChar (lt_of_mem_digitsOf (by omega) hd)

/-- A bound on the digits of a number. -/
theorem length_numeral_le {k : ℕ} (hb : 1 < b) (hk : 0 < k) (h : n < b ^ k) :
    (numeral b n).length ≤ k := by
  rw [numeral, length_map]
  exact length_digitsOf_le hb hk h

theorem takeWhile_isDigit_numeral (n : ℕ) : (numeral 10 n).takeWhile isDigit = numeral 10 n :=
  takeWhile_eq_self_iff.mpr fun _ hc => isDigit_of_mem_numeral hc

theorem dropWhile_isDigit_numeral (n : ℕ) : (numeral 10 n).dropWhile isDigit = [] :=
  dropWhile_eq_nil_iff.mpr fun _ hc => isDigit_of_mem_numeral hc

/-- What starts with a digit has no space and no sign before it. -/
theorem head_numeral (n : ℕ) : ∃ c rest, numeral 10 n = c :: rest ∧ isDigit c = true := by
  obtain ⟨c, rest, h⟩ := exists_cons_of_ne_nil (numeral_ne_nil 10 n)
  exact ⟨c, rest, h, isDigit_of_mem_numeral (h ▸ mem_cons_self)⟩

theorem not_special_of_isDigit {c : BitVec 8} (h : isDigit c = true) :
    isSpace c = false ∧ c ≠ 0x2D ∧ c ≠ 0x2B := by
  have hall : ∀ c : BitVec 8, isDigit c = true → isSpace c = false ∧ c ≠ 0x2D ∧ c ≠ 0x2B := by
    decide
  exact hall c h

theorem skipSpace_numeral (n : ℕ) : skipSpace (numeral 10 n) = numeral 10 n := by
  obtain ⟨c, rest, hc, hdigit⟩ := head_numeral n
  rw [skipSpace, hc, dropWhile_cons_of_neg (by simp [(not_special_of_isDigit hdigit).1])]

theorem head?_numeral (n : ℕ) :
    (numeral 10 n).head? ≠ some 0x2D ∧ (numeral 10 n).head? ≠ some 0x2B := by
  obtain ⟨c, rest, hc, hdigit⟩ := head_numeral n
  obtain ⟨-, hminus, hplus⟩ := not_special_of_isDigit hdigit
  rw [hc, head?_cons]
  exact ⟨fun h => hminus (Option.some.inj h), fun h => hplus (Option.some.inj h)⟩

/-- A decimal numeral of 64 bits is read back whole. -/
theorem strtoull10_numeral (h : n < 2 ^ 64) :
    strtoull10 (numeral 10 n) = some (BitVec.ofNat 64 n, []) := by
  obtain ⟨hminus, hplus⟩ := head?_numeral n
  have hfits : ¬(numeral 10 n = [] ∨ n ≥ 2 ^ 64) := by
    rw [not_or]
    exact ⟨numeral_ne_nil 10 n, by omega⟩
  simp only [strtoull10, skipSpace_numeral, hminus, hplus, or_self, if_false,
    takeWhile_isDigit_numeral, dropWhile_isDigit_numeral, decimalValue_numeral, if_neg hfits]

/-- A signed decimal of 64 bits is read back whole. -/
theorem strtol10_signedDecimal {i : ℤ} (hlow : -(2 ^ 63) ≤ i) (hhigh : i < 2 ^ 63) :
    strtol10 (signedDecimal i) = some (i, []) := by
  by_cases hneg : i < 0
  · have hskip : skipSpace (0x2D :: numeral 10 i.natAbs) = 0x2D :: numeral 10 i.natAbs := by
      rw [skipSpace, dropWhile_cons_of_neg (by decide)]
    have hvalue : -(i.natAbs : ℤ) = i := by omega
    have hfits : ¬(numeral 10 i.natAbs = [] ∨ i < -(2 ^ 63) ∨ 2 ^ 63 ≤ i) := by
      rw [not_or]
      exact ⟨numeral_ne_nil 10 _, by omega⟩
    simp only [strtol10, signedDecimal, if_pos hneg, hskip, head?_cons, tail_cons, true_or,
      if_true, takeWhile_isDigit_numeral, dropWhile_isDigit_numeral, decimalValue_numeral, hvalue,
      if_neg hfits]
  · obtain ⟨hminus, hplus⟩ := head?_numeral i.natAbs
    have hvalue : (i.natAbs : ℤ) = i := by omega
    have hfits : ¬(numeral 10 i.natAbs = [] ∨ i < -(2 ^ 63) ∨ 2 ^ 63 ≤ i) := by
      rw [not_or]
      exact ⟨numeral_ne_nil 10 _, by omega⟩
    simp only [strtol10, signedDecimal, if_neg hneg, skipSpace_numeral, hminus, hplus, or_self,
      if_false, takeWhile_isDigit_numeral, dropWhile_isDigit_numeral, decimalValue_numeral, hvalue,
      if_neg hfits]

theorem shiftLeft_or_ofNat {v : ℕ} (hd : d < 16) :
    BitVec.ofNat 64 v <<< 4 ||| BitVec.ofNat 64 d = BitVec.ofNat 64 (v * 16 + d) := by
  apply BitVec.eq_of_toNat_eq
  have hhigh : v % 2 ^ 64 * 2 ^ 4 % 2 ^ 64 = 2 ^ 4 * (v % 2 ^ 60) := by omega
  have hlow : d % 2 ^ 64 = d := Nat.mod_eq_of_lt (by omega)
  have hor := Nat.two_pow_add_eq_or_of_lt (i := 4) (b := d) (by omega) (v % 2 ^ 60)
  rw [BitVec.toNat_or, BitVec.toNat_shiftLeft, BitVec.toNat_ofNat, BitVec.toNat_ofNat,
    BitVec.toNat_ofNat, Nat.shiftLeft_eq, hhigh, hlow, ← hor]
  omega

theorem hexFold_digits {ds : List ℕ} (hds : ∀ d ∈ ds, d < 16) (v : ℕ) :
    hexFold (ds.map digitChar) (BitVec.ofNat 64 v) =
      some (BitVec.ofNat 64 (ds.foldl (fun v d => v * 16 + d) v)) := by
  induction ds generalizing v with
  | nil => rfl
  | cons d ds ih =>
    have hd := hds d (by simp)
    rw [map_cons, hexFold, hexNibbleValue_digitChar hd, foldl_cons]
    simp only [shiftLeft_or_ofNat hd]
    exact ih (fun d' h' => hds d' (by simp [h'])) _

/-- A padded hexadecimal numeral of 64 bits is read back whole. -/
theorem parseHexU64_zeroPadded {width : ℕ} (hn : n < 2 ^ 64) (hwidth : width ≤ 16) :
    parseHexU64 (zeroPadded width (numeral 16 n)) = some (BitVec.ofNat 64 n) := by
  have hlen : (numeral 16 n).length ≤ 16 := length_numeral_le (by omega) (by omega) (by omega)
  have hpadded : zeroPadded width (numeral 16 n) =
      (List.replicate (width - (numeral 16 n).length) 0 ++ digitsOf 16 n).map digitChar := by
    rw [zeroPadded, map_append, map_replicate]
    rfl
  have hpos : 0 < (numeral 16 n).length := length_pos_of_ne_nil (numeral_ne_nil 16 n)
  have hsize : ¬((zeroPadded width (numeral 16 n)).length = 0 ∨
      (zeroPadded width (numeral 16 n)).length > 16) := by
    rw [zeroPadded, length_append, length_replicate]
    omega
  have hdigits : ∀ d ∈ List.replicate (width - (numeral 16 n).length) 0 ++ digitsOf 16 n,
    d < 16 := by
    intro d hd
    rcases mem_append.mp hd with hd | hd
    · rw [eq_of_mem_replicate hd]
      omega
    · exact lt_of_mem_digitsOf (by omega) hd
  have hzeros : ∀ k, (List.replicate k 0).foldl (fun v d => v * 16 + d) 0 = 0 := by
    intro k
    induction k with
    | zero => rfl
    | succ k ih => rwa [replicate_succ, foldl_cons]
  rw [parseHexU64, if_neg hsize, hpadded]
  have hfold := hexFold_digits hdigits 0
  rw [foldl_append, hzeros, foldl_digitsOf] at hfold
  exact hfold

end DsdNeo.Text
