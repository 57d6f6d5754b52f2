import DsdNeo.Core.Galois.Register
import Mathlib.Data.List.GetD
import Mathlib.InformationTheory.Hamming

/-!
# The Reed-Solomon (12,9) code

`rs-12-9.c`. The products are made through two tables. The locator is found by three steps over the
syndromes, its roots by trying every power, and one correction is made at the place its only root
names, which has to be one of the twelve and has to leave no syndrome.
-/

namespace DsdNeo.Fec.Rs129

open Galois

/-- A symbol. -/
abbrev Byte := BitVec 8

/-- `rs_12_9_galois_exp_table`. -/
def galoisExpTable : List Byte :=
  [0x01, 0x02, 0x04, 0x08, 0x10, 0x20, 0x40, 0x80, 0x1D, 0x3A, 0x74, 0xE8, 0xCD, 0x87, 0x13, 0x26,
   0x4C, 0x98, 0x2D, 0x5A, 0xB4, 0x75, 0xEA, 0xC9, 0x8F, 0x03, 0x06, 0x0C, 0x18, 0x30, 0x60, 0xC0,
   0x9D, 0x27, 0x4E, 0x9C, 0x25, 0x4A, 0x94, 0x35, 0x6A, 0xD4, 0xB5, 0x77, 0xEE, 0xC1, 0x9F, 0x23,
   0x46, 0x8C, 0x05, 0x0A, 0x14, 0x28, 0x50, 0xA0, 0x5D, 0xBA, 0x69, 0xD2, 0xB9, 0x6F, 0xDE, 0xA1,
   0x5F, 0xBE, 0x61, 0xC2, 0x99, 0x2F, 0x5E, 0xBC, 0x65, 0xCA, 0x89, 0x0F, 0x1E, 0x3C, 0x78, 0xF0,
   0xFD, 0xE7, 0xD3, 0xBB, 0x6B, 0xD6, 0xB1, 0x7F, 0xFE, 0xE1, 0xDF, 0xA3, 0x5B, 0xB6, 0x71, 0xE2,
   0xD9, 0xAF, 0x43, 0x86, 0x11, 0x22, 0x44, 0x88, 0x0D, 0x1A, 0x34, 0x68, 0xD0, 0xBD, 0x67, 0xCE,
   0x81, 0x1F, 0x3E, 0x7C, 0xF8, 0xED, 0xC7, 0x93, 0x3B, 0x76, 0xEC, 0xC5, 0x97, 0x33, 0x66, 0xCC,
   0x85, 0x17, 0x2E, 0x5C, 0xB8, 0x6D, 0xDA, 0xA9, 0x4F, 0x9E, 0x21, 0x42, 0x84, 0x15, 0x2A, 0x54,
   0xA8, 0x4D, 0x9A, 0x29, 0x52, 0xA4, 0x55, 0xAA, 0x49, 0x92, 0x39, 0x72, 0xE4, 0xD5, 0xB7, 0x73,
   0xE6, 0xD1, 0xBF, 0x63, 0xC6, 0x91, 0x3F, 0x7E, 0xFC, 0xE5, 0xD7, 0xB3, 0x7B, 0xF6, 0xF1, 0xFF,
   0xE3, 0xDB, 0xAB, 0x4B, 0x96, 0x31, 0x62, 0xC4, 0x95, 0x37, 0x6E, 0xDC, 0xA5, 0x57, 0xAE, 0x41,
   0x82, 0x19, 0x32, 0x64, 0xC8, 0x8D, 0x07, 0x0E, 0x1C, 0x38, 0x70, 0xE0, 0xDD, 0xA7, 0x53, 0xA6,
   0x51, 0xA2, 0x59, 0xB2, 0x79, 0xF2, 0xF9, 0xEF, 0xC3, 0x9B, 0x2B, 0x56, 0xAC, 0x45, 0x8A, 0x09,
   0x12, 0x24, 0x48, 0x90, 0x3D, 0x7A, 0xF4, 0xF5, 0xF7, 0xF3, 0xFB, 0xEB, 0xCB, 0x8B, 0x0B, 0x16,
   0x2C, 0x58, 0xB0, 0x7D, 0xFA, 0xE9, 0xCF, 0x83, 0x1B, 0x36, 0x6C, 0xD8, 0xAD, 0x47, 0x8E, 0x01]

/-- `rs_12_9_galois_log_table`. -/
def galoisLogTable : List ℕ :=
  [0, 0, 1, 25, 2, 50, 26, 198, 3, 223, 51, 238, 27, 104, 199, 75, 4, 100, 224, 14, 52, 141, 239,
   129, 28, 193, 105, 248, 200, 8, 76, 113, 5, 138, 101, 47, 225, 36, 15, 33, 53, 147, 142, 218,
   240, 18, 130, 69, 29, 181, 194, 125, 106, 39, 249, 185, 201, 154, 9, 120, 77, 228, 114, 166, 6,
   191, 139, 98, 102, 221, 48, 253, 226, 152, 37, 179, 16, 145, 34, 136, 54, 208, 148, 206, 143,
   150, 219, 189, 241, 210, 19, 92, 131, 56, 70, 64, 30, 66, 182, 163, 195, 72, 126, 110, 107, 58,
   40, 84, 250, 133, 186, 61, 202, 94, 155, 159, 10, 21, 121, 43, 78, 212, 229, 172, 115, 243,
   167, 87, 7, 112, 192, 247, 140, 128, 99, 13, 103, 74, 222, 237, 49, 197, 254, 24, 227, 165,
   153, 119, 38, 184, 180, 124, 17, 68, 146, 217, 35, 32, 137, 46, 55, 63, 209, 91, 149, 188, 207,
   205, 144, 135, 151, 178, 220, 252, 190, 97, 242, 86, 211, 171, 20, 42, 93, 158, 132, 60, 57,
   83, 71, 109, 65, 162, 31, 45, 67, 216, 183, 123, 164, 118, 196, 23, 73, 236, 127, 12, 111, 246,
   108, 161, 59, 82, 41, 157, 85, 170, 251, 96, 134, 177, 187, 204, 62, 90, 203, 89, 95, 176, 156,
   169, 160, 81, 11, 245, 22, 235, 122, 117, 44, 215, 79, 174, 213, 233, 230, 231, 173, 232, 116,
   214, 244, 234, 168, 80, 88, 175]

/-- `rs_12_9_galois_exp_table_get`. -/
def galoisExpTableGet (pos : ℕ) : Byte := galoisExpTable.getD pos 0

/-- `rs_12_9_galois_multiplication`. -/
def galoisMultiplication (a b : Byte) : Byte :=
  if a = 0 ∨ b = 0 then 0
  else galoisExpTable.getD
    ((galoisLogTable.getD a.toNat 0 + galoisLogTable.getD b.toNat 0) % 255) 0

/-- `rs_12_9_galois_inv`. -/
def galoisInv (elt : Byte) : Byte :=
  galoisExpTable.getD (255 - galoisLogTable.getD elt.toNat 0) 0

/-- `rs_12_9_poly_t`. -/
abbrev Poly := Fin 6 → Byte

/-- `rs_12_9_codeword_t`. -/
abbrev Word := Fin 12 → Byte

/-- Exclusive or of the terms of a loop. -/
def xorSum (n : ℕ) (f : ℕ → Byte) : Byte := (List.range n).foldl (fun sum i => sum ^^^ f i) 0

/-- Entry of a polynomial that a counter names. -/
def Poly.at (p : Poly) (i : ℕ) : Byte := p (Fin.ofNat 6 i)

/-- `rs_12_9_multiply_poly_z`. -/
def multiplyPolyZ (poly : Poly) : Poly := fun i => if i.val = 0 then 0 else Poly.at poly (i.val - 1)

/-- `tmp1` of `rs_12_9_multiplicate_polys`: the second factor scaled and shifted. -/
def scaledShifted (p1 p2 : Poly) (i j : ℕ) : Byte :=
  if j < i then 0
  else if j - i < 6 then galoisMultiplication (Poly.at p2 (j - i)) (Poly.at p1 i) else 0

/-- `rs_12_9_multiplicate_polys`, coefficient `j` of the product. -/
def multiplicatePolys (p1 p2 : Poly) (j : ℕ) : Byte := xorSum 6 fun i => scaledShifted p1 p2 i j

/-- `rs_12_9_calc_error_evaluator_poly`. -/
def calcErrorEvaluatorPoly (errorLocatorPoly syndrome : Poly) : Poly := fun i =>
  if i.val < 3 then multiplicatePolys errorLocatorPoly syndrome i.val else 0

/-- `rs_12_9_compute_discrepancy`. -/
def computeDiscrepancy (errorLocatorPoly syndrome : Poly) (L n : ℕ) : Byte :=
  xorSum (L + 1) fun i =>
    galoisMultiplication (Poly.at errorLocatorPoly i) (Poly.at syndrome (n - i))

/-- Variables of `rs_12_9_calculate`. -/
structure Locating where
  L : ℕ
  k : ℤ
  D : Poly
  locator : Poly

/-- The variables before the loop. -/
def Locating.start : Locating :=
  { L := 0, k := -1, D := fun i => if i.val = 1 then 1 else 0,
    locator := fun i => if i.val = 0 then 1 else 0 }

/-- One turn of the loop of `rs_12_9_calculate`. -/
def calculateStep (syndrome : Poly) (n : ℕ) (s : Locating) : Locating :=
  let d := computeDiscrepancy s.locator syndrome s.L n
  let t :=
    if d ≠ 0 then
      let psi2 : Poly := fun i => s.locator i ^^^ galoisMultiplication d (s.D i)
      if (s.L : ℤ) < n - s.k then
        { L := (n - s.k).toNat, k := n - s.L,
          D := fun i => galoisMultiplication (s.locator i) (galoisInv d), locator := psi2 }
      else { s with locator := psi2 }
    else s
  { t with D := multiplyPolyZ t.D }

/-- `rs_12_9_calculate`: the locator, and the evaluator from it. -/
def calculate (syndrome : Poly) : Poly × Poly :=
  let s := (List.range 3).foldl (fun s n => calculateStep syndrome n s) Locating.start
  (s.locator, calcErrorEvaluatorPoly s.locator syndrome)

theorem calculate_snd (syndrome : Poly) :
    (calculate syndrome).2 = calcErrorEvaluatorPoly (calculate syndrome).1 syndrome := by
  simp only [calculate]

/-- `rs_12_9_find_roots`: the error locations. -/
def findRoots (errorLocatorPoly : Poly) : List ℕ :=
  ((List.range' 1 255).filter fun r => decide (xorSum 4 (fun k =>
    galoisMultiplication (galoisExpTableGet (k * r % 255)) (Poly.at errorLocatorPoly k)) = 0)).map
      fun r => 255 - r

/-- `rs_12_9_calc_syndrome`, into a polynomial whose upper half it leaves. -/
def calcSyndrome (codeword : Word) (stale : Poly) : Poly := fun j =>
  if j.val < 3 then
    (List.range 12).foldl
      (fun s i => codeword (Fin.ofNat 12 i) ^^^
        galoisMultiplication (galoisExpTableGet (j.val + 1)) s) 0
  else stale j

/-- `rs_12_9_check_syndrome`. -/
def checkSyndrome (syndrome : Poly) : Bool :=
  (List.range 3).any fun i => decide (Poly.at syndrome i ≠ 0)

/-- `rs_12_9_correct_errors_result_t`. -/
inductive CorrectErrorsResult
  | noErrorsFound
  | errorsCorrected
  | errorsCantBeCorrected
  deriving DecidableEq, Repr

/-- What a call leaves: the result, the word and `errors_found`. -/
structure Corrected where
  result : CorrectErrorsResult
  codeword : Word
  errorsFound : ℕ

/-- The value of the error at a location: evaluator by the derivative of the locator. -/
def errorValue (errorLocatorPoly errorEvaluatorPoly : Poly) (i : ℕ) : Byte :=
  let num := xorSum 6 fun j =>
    galoisMultiplication (Poly.at errorEvaluatorPoly j) (galoisExpTableGet ((255 - i) * j % 255))
  let denom := xorSum 3 fun m =>
    galoisMultiplication (Poly.at errorLocatorPoly (2 * m + 1))
      (galoisExpTableGet ((255 - i) * (2 * m) % 255))
  galoisMultiplication num (galoisInv denom)

/-- `rs_12_9_correct_errors`. The residual is computed into storage that holds `stale`. -/
def correctErrors (codeword : Word) (syndrome stale : Poly) : Corrected :=
  if checkSyndrome syndrome = false then ⟨.noErrorsFound, codeword, 0⟩
  else
    let polys := calculate syndrome
    match findRoots polys.1 with
    | [i] =>
      if 12 ≤ i then ⟨.errorsCantBeCorrected, codeword, 1⟩
      else
        let err := errorValue polys.1 polys.2 i
        let place := Fin.ofNat 12 (12 - i - 1)
        let codeword := Function.update codeword place (codeword place ^^^ err)
        if checkSyndrome (calcSyndrome codeword stale) = false then ⟨.errorsCorrected, codeword, 1⟩
        else ⟨.errorsCantBeCorrected, codeword, 1⟩
    | roots => ⟨.errorsCantBeCorrected, codeword, roots.length⟩

/-- A byte as an element of the field. -/
def gf (a : Byte) : Gf256 := ⟨a⟩

/-- The powers of the primitive element. -/
abbrev power (k : ℕ) : Gf256 := Galois.Register.Element.power register256 k

/-- Powers of a power. -/
theorem power_mul_eq_pow (k m : ℕ) : power (k * m) = power m ^ k :=
  Galois.Register.Element.power_mul_eq_pow k m

/-- No power vanishes. -/
theorem power_ne_zero (k : ℕ) : power k ≠ 0 := Galois.Register.Element.power_ne_zero k

theorem power_mul_power (k m : ℕ) : power k * power m = power (k + m) :=
  Galois.Register.Element.power_mul_power k m

/-- Powers repeat every 255. -/
theorem power_inj {k m : ℕ} : power k = power m ↔ k % 255 = m % 255 :=
  Galois.Register.Element.power_inj

@[simp] theorem gf_zero : gf 0 = 0 := rfl

@[simp] theorem gf_xor (a b : Byte) : gf (a ^^^ b) = gf a + gf b := rfl

/-- Only zero stands for zero. -/
theorem gf_eq_zero {a : Byte} : gf a = 0 ↔ a = 0 :=
  ⟨fun h => Galois.Register.Element.bits_eq_zero.mpr h, fun h => by rw [h]; rfl⟩

theorem gf_injective : Function.Injective gf := fun _ _ h => congrArg Galois.Register.Element.bits h

/-- The table lists the powers. -/
theorem galoisExpTable_eq : galoisExpTable = List.iterate timesX256 1 256 := by decide +kernel

theorem getD_galoisExpTable {k : ℕ} (hk : k < 256) : gf (galoisExpTable.getD k 0) = power k := by
  have hlen : k < (List.iterate timesX256 1 256).length := by rwa [List.length_iterate]
  rw [galoisExpTable_eq, List.getD_eq_getElem _ _ hlen, List.getElem_iterate]
  rfl

private theorem getD_galoisLogTable : ∀ a : Byte, a ≠ 0 →
    galoisLogTable.getD a.toNat 0 < 255 ∧
      galoisExpTable.getD (galoisLogTable.getD a.toNat 0) 0 = a := by decide

/-- The table is the logarithm of the register. -/
theorem galoisLogTable_eq {a : Byte} (ha : a ≠ 0) :
    galoisLogTable.getD a.toNat 0 = register256.log a := by
  obtain ⟨hlt, hexp⟩ := getD_galoisLogTable a ha
  have hpower := getD_galoisExpTable (k := galoisLogTable.getD a.toNat 0) (by omega)
  rw [hexp] at hpower
  have hbits : a = register256.antilog (galoisLogTable.getD a.toNat 0) :=
    congrArg Galois.Register.Element.bits hpower
  conv_rhs => rw [hbits]
  rw [register256.log_antilog]
  exact (Nat.mod_eq_of_lt hlt).symm

/-- The tables multiply. -/
@[simp] theorem gf_galoisMultiplication (a b : Byte) :
    gf (galoisMultiplication a b) = gf a * gf b := by
  by_cases ha : a = 0
  · subst ha
    rw [gf_zero, zero_mul, galoisMultiplication, if_pos (Or.inl rfl), gf_zero]
  by_cases hb : b = 0
  · subst hb
    rw [gf_zero, mul_zero, galoisMultiplication, if_pos (Or.inr rfl), gf_zero]
  have hlt : (register256.log a + register256.log b) % 255 < 256 :=
    (Nat.mod_lt _ (by decide)).trans (by decide)
  have hmul : ∀ x : Byte, x ≠ 0 → gf x = power (register256.log x) := fun x hx =>
    congrArg Galois.Register.Element.mk (register256.antilog_log hx).symm
  rw [galoisMultiplication, if_neg (not_or.mpr ⟨ha, hb⟩), galoisLogTable_eq ha,
    galoisLogTable_eq hb, getD_galoisExpTable hlt, hmul a ha, hmul b hb,
    Galois.Register.Element.power_mul_power]
  exact Galois.Register.Element.power_mod _

/-- The inverse of the tables, where there is one. -/
theorem gf_galoisInv {a : Byte} (ha : a ≠ 0) : gf (galoisInv a) = (gf a)⁻¹ := by
  have hle : register256.log a ≤ 255 := (register256.log_lt ha).le
  have hgf : gf a = power (register256.log a) :=
    congrArg Galois.Register.Element.mk (register256.antilog_log ha).symm
  rw [galoisInv, galoisLogTable_eq ha, getD_galoisExpTable (by omega), hgf,
    Galois.Register.Element.inv_power hle]
  rfl

theorem gf_galoisExpTableGet {k : ℕ} (hk : k < 256) : gf (galoisExpTableGet k) = power k :=
  getD_galoisExpTable hk

theorem gf_galoisExpTableGet_mod (k : ℕ) : gf (galoisExpTableGet (k % 255)) = power k := by
  rw [gf_galoisExpTableGet ((Nat.mod_lt _ (by decide)).trans (by decide))]
  exact Galois.Register.Element.power_mod _

@[simp] theorem gf_xorSum (n : ℕ) (f : ℕ → Byte) :
    gf (xorSum n f) = ∑ i ∈ Finset.range n, gf (f i) := by
  induction n with
  | zero => rfl
  | succ n ih =>
    rw [xorSum, List.range_succ, List.foldl_append, List.foldl_cons, List.foldl_nil, gf_xor,
      Finset.sum_range_succ, ← ih, xorSum]

end DsdNeo.Fec.Rs129
