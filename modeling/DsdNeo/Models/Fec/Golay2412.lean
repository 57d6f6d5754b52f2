import DsdNeo.Models.Fec.Hamming
import Mathlib.Data.Finset.Sort

/-!
# The extended Golay code by a table

`Golay_24_12_*` of `fec.c`: the syndrome of a word of 24 bits is an index into a table of up to
three places to flip. The loops that fill the table visit every pattern of one to three places,
data first, and no two of them share a syndrome, so each keeps its row.
-/

namespace DsdNeo.Fec.Golay2412

open Matrix ParityCheck Bits Fec.Hamming List

/-- `Golay_24_12_m_G`. -/
def mG : List ℕ :=
  [1, 0, 0, 0, 0, 0, 0, 0, 0, 0, 0, 0, 1, 1, 0, 0, 0, 1, 1, 1, 0, 1, 0, 1,
   0, 1, 0, 0, 0, 0, 0, 0, 0, 0, 0, 0, 0, 1, 1, 0, 0, 0, 1, 1, 1, 0, 1, 1,
   0, 0, 1, 0, 0, 0, 0, 0, 0, 0, 0, 0, 1, 1, 1, 1, 0, 1, 1, 0, 1, 0, 0, 0,
   0, 0, 0, 1, 0, 0, 0, 0, 0, 0, 0, 0, 0, 1, 1, 1, 1, 0, 1, 1, 0, 1, 0, 0,
   0, 0, 0, 0, 1, 0, 0, 0, 0, 0, 0, 0, 0, 0, 1, 1, 1, 1, 0, 1, 1, 0, 1, 0,
   0, 0, 0, 0, 0, 1, 0, 0, 0, 0, 0, 0, 1, 1, 0, 1, 1, 0, 0, 1, 1, 0, 0, 1,
   0, 0, 0, 0, 0, 0, 1, 0, 0, 0, 0, 0, 0, 1, 1, 0, 1, 1, 0, 0, 1, 1, 0, 1,
   0, 0, 0, 0, 0, 0, 0, 1, 0, 0, 0, 0, 0, 0, 1, 1, 0, 1, 1, 0, 0, 1, 1, 1,
   0, 0, 0, 0, 0, 0, 0, 0, 1, 0, 0, 0, 1, 1, 0, 1, 1, 1, 0, 0, 0, 1, 1, 0,
   0, 0, 0, 0, 0, 0, 0, 0, 0, 1, 0, 0, 1, 0, 1, 0, 1, 0, 0, 1, 0, 1, 1, 1,
   0, 0, 0, 0, 0, 0, 0, 0, 0, 0, 1, 0, 1, 0, 0, 1, 0, 0, 1, 1, 1, 1, 1, 0,
   0, 0, 0, 0, 0, 0, 0, 0, 0, 0, 0, 1, 1, 0, 0, 0, 1, 1, 1, 0, 1, 0, 1, 1]

/-- `Golay_24_12_m_H`. -/
def mH : List ℕ :=
  [1, 0, 1, 0, 0, 1, 0, 0, 1, 1, 1, 1, 1, 0, 0, 0, 0, 0, 0, 0, 0, 0, 0, 0,
   1, 1, 1, 1, 0, 1, 1, 0, 1, 0, 0, 0, 0, 1, 0, 0, 0, 0, 0, 0, 0, 0, 0, 0,
   0, 1, 1, 1, 1, 0, 1, 1, 0, 1, 0, 0, 0, 0, 1, 0, 0, 0, 0, 0, 0, 0, 0, 0,
   0, 0, 1, 1, 1, 1, 0, 1, 1, 0, 1, 0, 0, 0, 0, 1, 0, 0, 0, 0, 0, 0, 0, 0,
   0, 0, 0, 1, 1, 1, 1, 0, 1, 1, 0, 1, 0, 0, 0, 0, 1, 0, 0, 0, 0, 0, 0, 0,
   1, 0, 1, 0, 1, 0, 1, 1, 1, 0, 0, 1, 0, 0, 0, 0, 0, 1, 0, 0, 0, 0, 0, 0,
   1, 1, 1, 1, 0, 0, 0, 1, 0, 0, 1, 1, 0, 0, 0, 0, 0, 0, 1, 0, 0, 0, 0, 0,
   1, 1, 0, 1, 1, 1, 0, 0, 0, 1, 1, 0, 0, 0, 0, 0, 0, 0, 0, 1, 0, 0, 0, 0,
   0, 1, 1, 0, 1, 1, 1, 0, 0, 0, 1, 1, 0, 0, 0, 0, 0, 0, 0, 0, 1, 0, 0, 0,
   1, 0, 0, 1, 0, 0, 1, 1, 1, 1, 1, 0, 0, 0, 0, 0, 0, 0, 0, 0, 0, 1, 0, 0,
   0, 1, 0, 0, 1, 0, 0, 1, 1, 1, 1, 1, 0, 0, 0, 0, 0, 0, 0, 0, 0, 0, 1, 0,
   1, 1, 0, 0, 0, 1, 1, 1, 0, 1, 0, 1, 0, 0, 0, 0, 0, 0, 0, 0, 0, 0, 0, 1]

/-- `Golay_24_12_encode`. -/
def encode (origBits : ℕ → UInt8) : ℕ → UInt8 := fun j =>
  (List.range 12).foldl
    (fun sum i => sum + origBits i * UInt8.ofNat (mG.getD (24 * i + j) 0)) 0 % 2

/-- The syndrome of places in the data, as the loops that fill the table sum it. -/
def dataSyndrome (places : List ℕ) : ℕ :=
  ∑ ir : Fin 12, ((places.map fun i => mH.getD (24 * ir + i) 0).sum % 2) <<< (11 - ir.val)

/-- A syndrome with one place of the parity flipped. -/
def flipParity (syndrome ip : ℕ) : ℕ := syndrome ^^^ 1 <<< (11 - ip)

/-- The places after one, of twelve. -/
def after (i : ℕ) : List ℕ := List.range' (i + 1) (11 - i)

/-- The rows that `Golay_24_12_init` fills, in order. -/
def rows : List (ℕ × List ℕ) :=
  (List.range 12).flatMap (fun i1 =>
    (after i1).flatMap (fun i2 =>
      (after i2).map (fun i3 => (dataSyndrome [i1, i2, i3], [i1, i2, i3])) ++
      [(dataSyndrome [i1, i2], [i1, i2])] ++
      (List.range 12).map fun ip =>
        (flipParity (dataSyndrome [i1, i2]) ip, [i1, i2, 12 + ip])) ++
    [(dataSyndrome [i1], [i1])] ++
    (List.range 12).flatMap fun ip1 =>
      (flipParity (dataSyndrome [i1]) ip1, [i1, 12 + ip1]) ::
      (after ip1).map fun ip2 =>
        (flipParity (flipParity (dataSyndrome [i1]) ip1) ip2, [i1, 12 + ip1, 12 + ip2])) ++
  (List.range 12).flatMap fun ip1 =>
    (1 <<< (11 - ip1), [12 + ip1]) ::
    (after ip1).flatMap fun ip2 =>
      (flipParity (1 <<< (11 - ip1)) ip2, [12 + ip1, 12 + ip2]) ::
      (after ip2).map fun ip3 =>
        (flipParity (flipParity (1 <<< (11 - ip1)) ip2) ip3, [12 + ip1, 12 + ip2, 12 + ip3])

/-- The assignments of one row of the table. -/
def assignRow (row : ℕ × List ℕ) : List ((ℕ × ℕ) × ℕ) :=
  row.2.zipIdx.map fun p => ((row.1, p.2), p.1)

/-- `Golay_24_12_init`: the assignments that fill the table, in order. -/
def init : List ((ℕ × ℕ) × ℕ) := rows.flatMap assignRow

/-- `Golay_24_12_m_corr`: the last assignment made to an entry. -/
def mCorr (syndrome i : ℕ) : ℕ := (init.reverse.lookup (syndrome, i)).getD 0xFF

/-- The syndrome of a word. -/
def syndromeI (rxBits : ℕ → UInt8) : ℕ :=
  ∑ s : Fin 12, ((∑ j : Fin 24, (rxBits j).toNat * mH.getD (24 * s + j) 0) % 2) <<< (11 - s.val)

/-- The flips of `Golay_24_12_decode` from entry `i` of a row on, with how many were made. -/
def flipRow (row : ℕ → ℕ) : ℕ → ℕ → (ℕ → UInt8) → ℕ × (ℕ → UInt8)
  | 0, i, rxBits => (i, rxBits)
  | left + 1, i, rxBits =>
    if row i = 0xFF then (i, rxBits) else flipRow row left (i + 1) (flipBit rxBits (row i))

/-- `Golay_24_12_decode`, with the word it leaves. -/
def decode (rxBits : ℕ → UInt8) : Bool × (ℕ → UInt8) :=
  if syndromeI rxBits > 0 then
    let (i, fixed) := flipRow (mCorr (syndromeI rxBits)) 3 0 rxBits
    (decide (i ≠ 0), fixed)
  else (true, rxBits)

/-- The matrix `m_H`. -/
def matrixH : Matrix (Fin 12) (Fin 24) (ZMod 2) := checkMatrix 24 12 mH

/-- The matrix `m_G`. -/
def matrixG : Matrix (Fin 12) (Fin 24) (ZMod 2) := checkMatrix 24 12 mG

/-- The syndrome of one place. -/
def column (j : ℕ) : ℕ := dataSyndrome [j]

/-- The syndrome of some places. -/
def patternSyndrome (places : List ℕ) : ℕ := places.foldr (fun j s => column j ^^^ s) 0

/-- A pattern that the loops visit. -/
structure IsPattern (places : List ℕ) : Prop where
  sorted : places.Pairwise (· < ·)
  below : ∀ j ∈ places, j < 24
  few : places.length ≤ 3

theorem dataSyndrome_eq (places : List ℕ) : dataSyndrome places =
    ParityCheck.number fun s : Fin 12 =>
      (((places.map fun i => mH.getD (24 * s + i) 0).sum : ℕ) : ZMod 2) := by
  rw [dataSyndrome, ParityCheck.number]
  refine Finset.sum_congr rfl fun s _ => ?_
  rw [ZMod.val_natCast]

theorem dataSyndrome_eq_pattern (places : List ℕ) :
    dataSyndrome places = patternSyndrome places := by
  induction places with
  | nil => decide
  | cons i places ih =>
    have hcons : patternSyndrome (i :: places) = column i ^^^ patternSyndrome places := rfl
    rw [hcons, ← ih, column, dataSyndrome_eq, dataSyndrome_eq, dataSyndrome_eq, ← number_add]
    congr 1
    ext s
    simp

theorem column_eq (j : Fin 24) : column j = number (matrixH.col j) := by
  rw [column, dataSyndrome_eq]
  rfl

/-- The syndromes of the places. -/
def columns : List ℕ :=
  [3189, 1595, 3944, 1972, 986, 3481, 1741, 871, 3526, 2711, 2366, 2283,
   2048, 1024, 512, 256, 128, 64, 32, 16, 8, 4, 2, 1]

theorem tables_systematic :
    (∀ j < 24, column j = columns.getD j 0) ∧ (∀ x ∈ mG, x < 256) ∧
      (∀ s k : Fin 12, matrixH s (k.natAdd 12) = if s = k then 1 else 0) ∧
      (∀ i k : Fin 12, matrixG i (k.castAdd 12) = if i = k then 1 else 0) ∧
      ∀ s i : Fin 12, matrixH s (i.castAdd 12) = matrixG i (s.natAdd 12) := by
  refine ⟨?_, ?_, ?_, ?_, ?_⟩
  all_goals decide +kernel

variable {j ip i a : ℕ}

theorem column_eq_getD (hj : j < 24) : column j = columns.getD j 0 :=
  tables_systematic.1 j hj

theorem column_parity (hip : ip < 12) : column (12 + ip) = 1 <<< (11 - ip) := by
  have hall : ∀ ip < 12, columns.getD (12 + ip) 0 = 1 <<< (11 - ip) := by decide
  rw [column_eq_getD (by omega), hall ip hip]

theorem patternSyndrome_snoc (places : List ℕ) (j : ℕ) :
    patternSyndrome (places ++ [j]) = patternSyndrome places ^^^ column j := by
  induction places with
  | nil => exact Nat.xor_comm _ _
  | cons i places ih =>
    have hcons : ∀ l, patternSyndrome (i :: l) = column i ^^^ patternSyndrome l := fun _ => rfl
    rw [cons_append, hcons, hcons, ih, Nat.xor_assoc]

theorem flipParity_eq (hip : ip < 12) (places : List ℕ) :
    flipParity (patternSyndrome places) ip = patternSyndrome (places ++ [12 + ip]) := by
  rw [flipParity, ← column_parity hip, patternSyndrome_snoc]

theorem parity_eq (hip : ip < 12) : 1 <<< (11 - ip) = patternSyndrome [12 + ip] := by
  rw [← column_parity hip]
  exact (Nat.xor_zero _).symm

theorem mem_after (hi : i < 12) : j ∈ after i ↔ i < j ∧ j < 12 := by
  rw [after, mem_range'_1]
  omega

theorem isPattern_one (ha : a < 24) : IsPattern [a] :=
  ⟨by simp, by simpa using ha, by simp⟩

theorem isPattern_two {b : ℕ} (hab : a < b) (hb : b < 24) : IsPattern [a, b] :=
  ⟨by simpa using hab, by simp; omega, by simp⟩

theorem isPattern_three {b c : ℕ} (hab : a < b) (hbc : b < c) (hc : c < 24) : IsPattern [a, b, c] :=
  ⟨by simp; omega, by simp; omega, by simp⟩

theorem pattern_of_mem_rows {row : ℕ × List ℕ} (h : row ∈ rows) :
    IsPattern row.2 ∧ row.1 = patternSyndrome row.2 := by
  simp only [rows, mem_append, mem_flatMap, mem_map, mem_cons,
    mem_range, not_mem_nil, or_false] at h
  rcases h with ⟨a, ha, ((⟨b, hb, (⟨c, hc, rfl⟩ | rfl) | ⟨ip, hp, rfl⟩⟩ | rfl) |
    ⟨ip, hp, rfl | ⟨ip2, hp2, rfl⟩⟩)⟩ | ⟨ip, hp, rfl | ⟨ip2, hp2, rfl | ⟨ip3, hp3, rfl⟩⟩⟩
  · obtain ⟨hab, hb⟩ := (mem_after ha).mp hb
    obtain ⟨hbc, hc⟩ := (mem_after hb).mp hc
    exact ⟨isPattern_three hab hbc (by omega), dataSyndrome_eq_pattern _⟩
  · obtain ⟨hab, hb⟩ := (mem_after ha).mp hb
    exact ⟨isPattern_two hab (by omega), dataSyndrome_eq_pattern _⟩
  · obtain ⟨hab, hb⟩ := (mem_after ha).mp hb
    refine ⟨isPattern_three hab (by omega) (by omega), ?_⟩
    rw [dataSyndrome_eq_pattern, flipParity_eq hp]
    rfl
  · exact ⟨isPattern_one (by omega), dataSyndrome_eq_pattern _⟩
  · refine ⟨isPattern_two (by omega) (by omega), ?_⟩
    rw [dataSyndrome_eq_pattern, flipParity_eq hp]
    rfl
  · obtain ⟨hlt, hp2⟩ := (mem_after hp).mp hp2
    refine ⟨isPattern_three (by omega) (by omega) (by omega), ?_⟩
    rw [dataSyndrome_eq_pattern, flipParity_eq hp, flipParity_eq hp2]
    rfl
  · exact ⟨isPattern_one (by omega), parity_eq hp⟩
  · obtain ⟨hlt, hp2⟩ := (mem_after hp).mp hp2
    refine ⟨isPattern_two (by omega) (by omega), ?_⟩
    rw [parity_eq hp, flipParity_eq hp2]
    rfl
  · obtain ⟨hlt, hp2⟩ := (mem_after hp).mp hp2
    obtain ⟨hlt2, hp3⟩ := (mem_after hp2).mp hp3
    refine ⟨isPattern_three (by omega) (by omega) (by omega), ?_⟩
    rw [parity_eq hp, flipParity_eq hp2, flipParity_eq hp3]
    rfl

variable {places : List ℕ}

theorem mem_rows_of_pattern (h : IsPattern places) (hne : places ≠ []) :
    (patternSyndrome places, places) ∈ rows := by
  have hparity : ∀ j < 24, 12 ≤ j → ∃ ip < 12, j = 12 + ip := fun j hj hle =>
    ⟨j - 12, by omega, by omega⟩
  have hbelow := h.below
  have hsorted := h.sorted
  have hfew := h.few
  simp only [rows, mem_append, mem_flatMap, mem_map, mem_cons, mem_range, not_mem_nil, or_false]
  match places with
  | [] => exact absurd rfl hne
  | [a] =>
    have ha : a < 24 := by simpa using hbelow
    by_cases hdata : a < 12
    · exact Or.inl ⟨a, hdata, Or.inl (Or.inr (by rw [dataSyndrome_eq_pattern]))⟩
    · obtain ⟨ip, hp, rfl⟩ := hparity a ha (not_lt.mp hdata)
      exact Or.inr ⟨ip, hp, Or.inl (by rw [parity_eq hp])⟩
  | [a, b] =>
    obtain ⟨ha, hb⟩ : a < 24 ∧ b < 24 := by simpa using hbelow
    have hab : a < b := by simpa using hsorted
    by_cases hdata : a < 12
    · by_cases hdata' : b < 12
      · refine Or.inl ⟨a, hdata, Or.inl (Or.inl ⟨b, (mem_after hdata).mpr ⟨hab, hdata'⟩,
          Or.inl (Or.inr ?_)⟩)⟩
        rw [dataSyndrome_eq_pattern]
      · obtain ⟨ip, hp, rfl⟩ := hparity b hb (not_lt.mp hdata')
        refine Or.inl ⟨a, hdata, Or.inr ⟨ip, hp, Or.inl ?_⟩⟩
        rw [dataSyndrome_eq_pattern, flipParity_eq hp]
        rfl
    · obtain ⟨ip, hp, rfl⟩ := hparity a ha (not_lt.mp hdata)
      obtain ⟨ip2, hp2, rfl⟩ := hparity b hb (by omega)
      refine Or.inr ⟨ip, hp, Or.inr ⟨ip2, (mem_after hp).mpr ⟨by omega, hp2⟩, Or.inl ?_⟩⟩
      rw [parity_eq hp, flipParity_eq hp2]
      rfl
  | [a, b, c] =>
    obtain ⟨ha, hb, hc⟩ : a < 24 ∧ b < 24 ∧ c < 24 := by simpa using hbelow
    obtain ⟨⟨hab, hac⟩, hbc⟩ : (a < b ∧ a < c) ∧ b < c := by simpa using hsorted
    by_cases hdata : a < 12
    · by_cases hdata' : b < 12
      · have hmem := (mem_after hdata).mpr ⟨hab, hdata'⟩
        by_cases hdata'' : c < 12
        · refine Or.inl ⟨a, hdata, Or.inl (Or.inl ⟨b, hmem,
            Or.inl (Or.inl ⟨c, (mem_after hdata').mpr ⟨hbc, hdata''⟩, ?_⟩)⟩)⟩
          rw [dataSyndrome_eq_pattern]
        · obtain ⟨ip, hp, rfl⟩ := hparity c hc (not_lt.mp hdata'')
          refine Or.inl ⟨a, hdata, Or.inl (Or.inl ⟨b, hmem, Or.inr ⟨ip, hp, ?_⟩⟩)⟩
          rw [dataSyndrome_eq_pattern, flipParity_eq hp]
          rfl
      · obtain ⟨ip, hp, rfl⟩ := hparity b hb (not_lt.mp hdata')
        obtain ⟨ip2, hp2, rfl⟩ := hparity c hc (by omega)
        refine Or.inl ⟨a, hdata, Or.inr ⟨ip, hp,
          Or.inr ⟨ip2, (mem_after hp).mpr ⟨by omega, hp2⟩, ?_⟩⟩⟩
        rw [dataSyndrome_eq_pattern, flipParity_eq hp, flipParity_eq hp2]
        rfl
    · obtain ⟨ip, hp, rfl⟩ := hparity a ha (not_lt.mp hdata)
      obtain ⟨ip2, hp2, rfl⟩ := hparity b hb (by omega)
      obtain ⟨ip3, hp3, rfl⟩ := hparity c hc (by omega)
      refine Or.inr ⟨ip, hp, Or.inr ⟨ip2, (mem_after hp).mpr ⟨by omega, hp2⟩,
        Or.inr ⟨ip3, (mem_after hp2).mpr ⟨by omega, hp3⟩, ?_⟩⟩⟩
      rw [parity_eq hp, flipParity_eq hp2, flipParity_eq hp3]
      rfl
  | _ :: _ :: _ :: _ :: _ =>
    simp only [length_cons] at hfew
    omega

/-- The bit that stands for a place: the data low, then the parity from its last place on. -/
def bitOf (j : ℕ) : ℕ := if j < 12 then j else 35 - j

theorem bitOf_lt (hj : j < 24) : bitOf j < 24 := by
  rw [bitOf]
  split <;> omega

theorem bitOf_injective {k : ℕ} (hj : j < 24) (hk : k < 24) (h : bitOf j = bitOf k) : j = k := by
  rw [bitOf, bitOf] at h
  split at h <;> split at h <;> omega

/-- The columns of the places a word has bits for, from place `j` on. -/
def columnSum : ℕ → ℕ → BitVec 24 → BitVec 24
  | 0, _, _ => 0
  | left + 1, j, w =>
    (if w.getLsbD (bitOf j) then BitVec.ofNat 24 (columns.getD j 0 <<< 12) else 0) ^^^
      columnSum left (j + 1) w

/-- The syndrome of a word, above twelve bits of zero. -/
def syndromeWord : BitVec 24 → BitVec 24 := columnSum 24 0

theorem syndromeWord_linear : IsLinear syndromeWord := by
  have hsum : ∀ left j, IsLinear (columnSum left j) := by
    intro left
    induction left with
    | zero => exact fun _ _ _ => BitVec.xor_self.symm
    | succ left ih => exact fun j => (isLinear_select (bitOf j) _).xor (ih (j + 1))
  exact hsum 24 0

theorem syndromeWord_bits : (∀ i < 24, 12 ≤ i → syndromeWord (1#24 <<< i) = 1#24 <<< i) ∧
    (∀ j < 24, syndromeWord (1#24 <<< bitOf j) = BitVec.ofNat 24 (columns.getD j 0 <<< 12)) ∧
    keepsBit ((List.range 12).map fun i => (syndromeWord (1#24 <<< i)).toNat) 6 0 false = true := by
  decide +kernel

theorem syndromeWord_detects : Detects syndromeWord 24 6 :=
  Detects.of_rows syndromeWord_linear (k := 12) (by decide) (by decide)
    (fun i hle hlt => syndromeWord_bits.1 i hlt hle) syndromeWord_bits.2.2

theorem syndromeWord_bit (hj : j < 24) :
    syndromeWord (1#24 <<< bitOf j) = BitVec.ofNat 24 (column j <<< 12) := by
  rw [column_eq_getD hj, syndromeWord_bits.2.1 j hj]

theorem syndromeWord_pattern (h : ∀ j ∈ places, j < 24) :
    syndromeWord (ofPositions 24 (places.map bitOf)) =
      BitVec.ofNat 24 (patternSyndrome places <<< 12) := by
  induction places with
  | nil => exact syndromeWord_linear.map_zero
  | cons j places ih =>
    obtain ⟨hj, hrest⟩ := forall_mem_cons.mp h
    have hcons : ofPositions 24 ((j :: places).map bitOf) =
        (1#24 <<< bitOf j) ^^^ ofPositions 24 (places.map bitOf) := rfl
    have hsum : patternSyndrome (j :: places) = column j ^^^ patternSyndrome places := rfl
    rw [hcons, syndromeWord_linear, syndromeWord_bit hj, ih hrest, hsum, ← BitVec.ofNat_xor,
      ← Nat.shiftLeft_xor_distrib]

theorem IsPattern.nodup (h : IsPattern places) : places.Nodup :=
  h.sorted.imp Nat.ne_of_lt

theorem pattern_unique {places' : List ℕ} (h : IsPattern places) (h' : IsPattern places')
    (hs : patternSyndrome places = patternSyndrome places') : places = places' := by
  have hnodup : ∀ {l}, IsPattern l → (l.map bitOf).Nodup := fun {l} hl =>
    hl.nodup.map_on fun a ha b hb heq => bitOf_injective (hl.below a ha) (hl.below b hb) heq
  have hbits : ∀ {l}, IsPattern l → ∀ i ∈ l.map bitOf, i < 24 := fun {l} hl i hi => by
    obtain ⟨j, hj, rfl⟩ := mem_map.mp hi
    exact bitOf_lt (hl.below j hj)
  have hweight : ∀ {l}, IsPattern l → weight (ofPositions 24 (l.map bitOf)) ≤ 3 := fun {l} hl => by
    rw [weight_ofPositions (hnodup hl) (hbits hl), length_map]
    exact hl.few
  have hwords := syndromeWord_detects.pattern_unique (t := 3) syndromeWord_linear
    (below_width _) (below_width _) (hweight h) (hweight h')
    (by rw [syndromeWord_pattern h.below, syndromeWord_pattern h'.below, hs])
  have hmem : ∀ j < 24, j ∈ places ↔ j ∈ places' := by
    have hin : ∀ {l}, IsPattern l → ∀ j < 24,
        (ofPositions 24 (l.map bitOf)).getLsbD (bitOf j) = decide (j ∈ l) := fun {l} hl j hj => by
      rw [getLsbD_ofPositions (hnodup hl) (bitOf_lt hj)]
      congr 1
      rw [mem_map, eq_iff_iff]
      constructor
      · rintro ⟨i, hi, heq⟩
        rwa [← bitOf_injective (hl.below i hi) hj heq]
      · intro hj'
        exact ⟨j, hj', rfl⟩
    intro j hj
    have hsame := hin h j hj
    rw [hwords, hin h' j hj] at hsame
    exact (decide_eq_decide.mp hsame).symm
  have hperm : places.Perm places' := by
    refine (perm_ext_iff_of_nodup h.nodup h'.nodup).mpr fun j => ?_
    constructor
    · intro hj
      exact (hmem j (h.below j hj)).mp hj
    · intro hj
      exact (hmem j (h'.below j hj)).mpr hj
  exact hperm.eq_of_pairwise (fun a b _ _ hab hba =>
    absurd hab (Nat.lt_asymm hba)) h.sorted h'.sorted

theorem mem_assignRow {row : ℕ × List ℕ} {w : (ℕ × ℕ) × ℕ} :
    w ∈ assignRow row ↔ w.1.1 = row.1 ∧ row.2[w.1.2]? = some w.2 := by
  obtain ⟨⟨s, i⟩, v⟩ := w
  simp only [assignRow, mem_map, Prod.mk.injEq, Prod.exists, mem_zipIdx_iff_getElem?]
  constructor
  · rintro ⟨v', i', hget, ⟨rfl, rfl⟩, rfl⟩
    exact ⟨rfl, hget⟩
  · rintro ⟨rfl, hget⟩
    exact ⟨v, i, hget, ⟨rfl, rfl⟩, rfl⟩

/-- A lookup where all entries under a key agree. -/
theorem lookup_eq_some {α β : Type} [BEq α] [LawfulBEq α] {l : List (α × β)} {k : α} {v : β}
    (hmem : (k, v) ∈ l) (hall : ∀ w ∈ l, w.1 = k → w.2 = v) : l.lookup k = some v := by
  induction l with
  | nil => cases hmem
  | cons w l ih =>
    obtain ⟨k', v'⟩ := w
    rw [lookup_cons]
    rcases eq_or_ne k k' with rfl | hk
    · have hv : v' = v := hall (k, v') mem_cons_self rfl
      rw [beq_self_eq_true, hv]
    · have hmem' : (k, v) ∈ l := by
        rcases mem_cons.mp hmem with heq | hmem
        · exact absurd (Prod.mk.inj heq).1 hk
        · exact hmem
      rw [beq_eq_false_iff_ne.mpr hk]
      exact ih hmem' fun w hw => hall w (mem_cons_of_mem _ hw)

theorem mCorr_pattern (h : IsPattern places) (hne : places ≠ []) (i : ℕ) :
    mCorr (patternSyndrome places) i = places[i]?.getD 0xFF := by
  have hrow : ∀ w ∈ init.reverse, w.1 = (patternSyndrome places, i) → places[i]? = some w.2 := by
    intro w hw hkey
    obtain ⟨row, hrow, hin⟩ := mem_flatMap.mp (mem_reverse.mp hw)
    obtain ⟨hs, hget⟩ := mem_assignRow.mp hin
    obtain ⟨hpattern, hsyn⟩ := pattern_of_mem_rows hrow
    rw [hkey] at hs hget
    rwa [pattern_unique h hpattern (hs.trans hsyn)]
  rw [mCorr]
  cases hget : places[i]? with
  | none =>
    have hnone : init.reverse.lookup (patternSyndrome places, i) = none := by
      refine lookup_eq_none_iff.mpr fun w hw => ?_
      rw [bne_iff_ne]
      intro hkey
      have := hrow w hw hkey.symm
      rw [hget] at this
      cases this
    rw [hnone]
  | some v =>
    have hmem : ((patternSyndrome places, i), v) ∈ init.reverse :=
      mem_reverse.mpr (mem_flatMap.mpr
        ⟨_, mem_rows_of_pattern h hne, mem_assignRow.mpr ⟨rfl, hget⟩⟩)
    rw [lookup_eq_some hmem fun w hw hkey => by
      have := hrow w hw hkey
      rw [hget] at this
      exact (Option.some.inj this).symm]

/-- A word with the bits at some places flipped. -/
def flipped (places : List ℕ) (rxBits : ℕ → UInt8) : ℕ → UInt8 := places.foldl flipBit rxBits

theorem flipped_apply (h : places.Nodup) (rxBits : ℕ → UInt8) (j : ℕ) :
    flipped places rxBits j = if j ∈ places then rxBits j ^^^ 1 else rxBits j := by
  induction places generalizing rxBits with
  | nil => simp [flipped]
  | cons i places ih =>
    obtain ⟨hnot, hrest⟩ := nodup_cons.mp h
    have hcons : flipped (i :: places) rxBits = flipped places (flipBit rxBits i) := rfl
    rw [hcons, ih hrest]
    by_cases hj : j = i
    · subst hj
      rw [if_neg hnot, if_pos mem_cons_self, flipBit_self]
    · rw [flipBit_of_ne rxBits hj]
      simp [hj]

theorem flipped_flipped (h : places.Nodup) (rxBits : ℕ → UInt8) :
    flipped places (flipped places rxBits) = rxBits := by
  ext1 j
  rw [flipped_apply h, flipped_apply h]
  by_cases hj : j ∈ places
  · rw [if_pos hj, if_pos hj, UInt8.xor_assoc, UInt8.xor_self, UInt8.xor_zero]
  · rw [if_neg hj, if_neg hj]

/-- A word that every check answers by zero. -/
def IsCodeword (w : ℕ → UInt8) : Prop := matrixH *ᵥ bits 24 w = 0

theorem syndromeI_eq (rxBits : ℕ → UInt8) :
    syndromeI rxBits = ParityCheck.number (matrixH *ᵥ bits 24 rxBits) :=
  sum_checks mH rxBits

theorem syndromeI_flipped_xor (h : ∀ j ∈ places, j < 24) (v : ℕ → UInt8) :
    syndromeI (flipped places v) = patternSyndrome places ^^^ syndromeI v := by
  induction places generalizing v with
  | nil => exact (Nat.zero_xor _).symm
  | cons j l ih =>
    obtain ⟨hj, hrest⟩ := forall_mem_cons.mp h
    have hcons : flipped (j :: l) v = flipped l (flipBit v j) := rfl
    have hcolumn : column j = ParityCheck.number (matrixH.col ⟨j, hj⟩) := column_eq ⟨j, hj⟩
    have hpattern : patternSyndrome (j :: l) = column j ^^^ patternSyndrome l := rfl
    rw [hcons, ih hrest, syndromeI_eq, mulVec_bits_flipBit matrixH v ⟨j, hj⟩, number_add,
      ← hcolumn, ← syndromeI_eq, hpattern, Nat.xor_comm (column j), Nat.xor_assoc,
      Nat.xor_comm (column j)]

variable {w : ℕ → UInt8}

theorem syndromeI_flipped (hw : IsCodeword w) (h : ∀ j ∈ places, j < 24) :
    syndromeI (flipped places w) = patternSyndrome places := by
  rw [syndromeI_flipped_xor h, syndromeI_eq, hw, number_zero, Nat.xor_zero]

theorem flipRow_eq (h : ∀ j ∈ places, j < 24) {row : ℕ → ℕ}
    (hrow : ∀ i, row i = places[i]?.getD 0xFF) {left : ℕ} (hleft : places.length ≤ i + left)
    (hi : i ≤ places.length) (rxBits : ℕ → UInt8) :
    flipRow row left i rxBits = (places.length, flipped (places.drop i) rxBits) := by
  induction left generalizing i rxBits with
  | zero =>
    obtain rfl : i = places.length := by omega
    rw [drop_length]
    rfl
  | succ left ih =>
    rw [flipRow, hrow]
    rcases Nat.eq_or_lt_of_le hi with rfl | hlt
    · rw [getElem?_eq_none le_rfl, drop_length]
      rfl
    · have hplace := h _ (getElem_mem hlt)
      rw [getElem?_eq_getElem hlt, Option.getD_some, if_neg (by omega), ih (by omega) hlt,
        drop_eq_getElem_cons hlt]
      rfl

/-- A code word with up to three bits flipped is restored. -/
theorem decode_flipped (hw : IsCodeword w) (h : IsPattern places) :
    decode (flipped places w) = (true, w) := by
  have hsyn := syndromeI_flipped hw h.below
  rw [decode, hsyn]
  by_cases hne : places = []
  · subst hne
    rfl
  · have hpos : patternSyndrome places > 0 := by
      refine Nat.pos_of_ne_zero fun hzero => hne ?_
      exact pattern_unique h ⟨List.Pairwise.nil, by simp, by simp⟩ hzero
    have hlen : places.length ≠ 0 := fun hzero => hne (length_eq_zero_iff.mp hzero)
    rw [if_pos hpos, flipRow_eq h.below (mCorr_pattern h hne) (by have := h.few; omega)
      (Nat.zero_le _), drop_zero]
    dsimp only
    rw [flipped_flipped h.nodup, decide_eq_true hlen]

theorem isCodeword_iff (v : ℕ → UInt8) : IsCodeword v ↔ syndromeI v = 0 := by
  rw [syndromeI_eq, number_eq_zero]
  rfl

theorem mCorr_eq_invalid {s : ℕ} (h : ∀ places, IsPattern places → patternSyndrome places ≠ s)
    (i : ℕ) : mCorr s i = 0xFF := by
  have hnone : init.reverse.lookup (s, i) = none := by
    refine lookup_eq_none_iff.mpr fun w hw => bne_iff_ne.mpr fun hkey => ?_
    obtain ⟨row, hrow, hin⟩ := mem_flatMap.mp (mem_reverse.mp hw)
    obtain ⟨hpattern, hsyn⟩ := pattern_of_mem_rows hrow
    exact h row.2 hpattern (by rw [← hsyn, ← (mem_assignRow.mp hin).1, ← hkey])
  rw [mCorr, hnone]
  rfl

/-- The decoder restores exactly the words at most three flips away from a code word, and leaves
every other as it came. -/
theorem golay2412Decode_exact (rxBits : ℕ → UInt8) :
    (∀ places, IsPattern places → IsCodeword (flipped places rxBits) →
      decode rxBits = (true, flipped places rxBits)) ∧
    ((∀ places, IsPattern places → ¬IsCodeword (flipped places rxBits)) →
      decode rxBits = (false, rxBits)) := by
  refine ⟨fun places h hw => ?_, fun h => ?_⟩
  · have hback := decode_flipped hw h
    rwa [flipped_flipped h.nodup] at hback
  · have hunseen : ∀ places, IsPattern places → patternSyndrome places ≠ syndromeI rxBits := by
      intro places hp heq
      refine h places hp ((isCodeword_iff _).mpr ?_)
      rw [syndromeI_flipped_xor hp.below, heq, Nat.xor_self]
    have hpos : syndromeI rxBits > 0 :=
      Nat.pos_of_ne_zero fun hzero => hunseen [] ⟨List.Pairwise.nil, by simp, by simp⟩ hzero.symm
    rw [decode, if_pos hpos, flipRow, mCorr_eq_invalid hunseen, if_pos rfl]
    rfl

/-- A word with nothing after its 24 bits. -/
def clipped (w : ℕ → UInt8) : ℕ → UInt8 := fun k => if k < 24 then w k else 0

theorem clipped_isCodeword (h : IsCodeword w) : IsCodeword (clipped w) := by
  have hbits : bits 24 (clipped w) = bits 24 w := by
    ext j
    rw [bits, bits, clipped, if_pos j.isLt]
  rw [IsCodeword, hbits]
  exact h

/-- Any three bits or fewer in error leave the code word. -/
theorem decode_clipped {v : ℕ → UInt8} (hw : IsCodeword w) {errors : Finset ℕ}
    (hplaces : errors ⊆ Finset.range 24) (hfew : errors.card ≤ 3)
    (hv : ∀ k < 24, v k = if k ∈ errors then w k ^^^ 1 else w k) :
    decode (clipped v) = (true, clipped w) := by
  have hpattern : IsPattern errors.sort := by
    refine ⟨errors.sortedLT_sort.pairwise, fun j hj => ?_, ?_⟩
    · exact Finset.mem_range.mp (hplaces ((Finset.mem_sort _).mp hj))
    · rwa [Finset.length_sort]
  have hword : clipped v = flipped errors.sort (clipped w) := by
    ext1 k
    rw [flipped_apply hpattern.nodup, clipped, clipped]
    simp only [Finset.mem_sort]
    by_cases hk : k < 24
    · rw [if_pos hk, if_pos hk, hv k hk]
    · have hno : k ∉ errors := fun hmem => hk (Finset.mem_range.mp (hplaces hmem))
      rw [if_neg hk, if_neg hno, if_neg hk]
  rw [hword]
  exact decode_flipped (clipped_isCodeword hw) hpattern
/-- The places of the parity have a check each. -/
theorem matrixH_parity (s k : Fin 12) : matrixH s (k.natAdd 12) = if s = k then 1 else 0 :=
  tables_systematic.2.2.1 s k

theorem matrixG_data (i k : Fin 12) : matrixG i (k.castAdd 12) = if i = k then 1 else 0 :=
  tables_systematic.2.2.2.1 i k

theorem matrixH_data (s i : Fin 12) : matrixH s (i.castAdd 12) = matrixG i (s.natAdd 12) :=
  tables_systematic.2.2.2.2 s i

/-- The checks are orthogonal to the generator. -/
theorem matrixH_mul_matrixG : matrixH * matrixG.transpose = 0 := by
  ext s i
  have hsplit := Fin.sum_univ_add (a := 12) (b := 12) fun j => matrixH s j * matrixG i j
  have hsum : (matrixH * matrixG.transpose) s i = ∑ j, matrixH s j * matrixG i j := rfl
  rw [hsum, hsplit]
  simp only [matrixH_parity, matrixG_data, matrixH_data, mul_ite, mul_one, mul_zero, ite_mul,
    one_mul, zero_mul, Finset.sum_ite_eq, Finset.mem_univ, if_true]
  exact CharTwo.add_self_eq_zero _

theorem bit_add (a b : UInt8) : ((a + b).toNat : ZMod 2) = a.toNat + b.toNat := by
  rw [← Nat.cast_add, ZMod.natCast_eq_natCast_iff', UInt8.toNat_add,
    Nat.mod_mod_of_dvd _ (by decide)]

theorem bit_mul (a b : UInt8) : ((a * b).toNat : ZMod 2) = a.toNat * b.toNat := by
  rw [← Nat.cast_mul, ZMod.natCast_eq_natCast_iff', UInt8.toNat_mul,
    Nat.mod_mod_of_dvd _ (by decide)]

theorem bit_mod (a : UInt8) : ((a % 2).toNat : ZMod 2) = a.toNat := by
  rw [ZMod.natCast_eq_natCast_iff', UInt8.toNat_mod]
  exact Nat.mod_mod _ _

theorem mG_bit (i : ℕ) : (UInt8.ofNat (mG.getD i 0)).toNat = mG.getD i 0 := by
  have hall : ∀ x ∈ mG, x < 256 := tables_systematic.2.1
  rw [UInt8.toNat_ofNat', Nat.mod_eq_of_lt]
  rw [getD_eq_getElem?_getD]
  cases hget : mG[i]? with
  | none => decide
  | some x => exact hall x (mem_of_getElem? hget)

theorem bit_sum (f : ℕ → UInt8) (l : List ℕ) (start : UInt8) :
    ((l.foldl (fun sum i => sum + f i) start).toNat : ZMod 2) =
      start.toNat + (l.map fun i => ((f i).toNat : ZMod 2)).sum := by
  induction l generalizing start with
  | nil => simp
  | cons i l ih =>
    rw [foldl_cons, ih, bit_add, map_cons, sum_cons, add_assoc]

theorem bits_encode (origBits : ℕ → UInt8) :
    bits 24 (encode origBits) = matrixG.transpose *ᵥ bits 12 origBits := by
  ext j
  rw [bits, encode, bit_mod, bit_sum, mulVec, dotProduct]
  have hsum := Finset.sum_range (n := 12) fun i =>
    ((origBits i * UInt8.ofNat (mG.getD (24 * i + j) 0)).toNat : ZMod 2)
  have hlist : ((List.range 12).map fun i =>
      ((origBits i * UInt8.ofNat (mG.getD (24 * i + j) 0)).toNat : ZMod 2)).sum =
      ∑ i ∈ Finset.range 12, ((origBits i * UInt8.ofNat (mG.getD (24 * i + j) 0)).toNat : ZMod 2) :=
    rfl
  rw [hlist, hsum]
  have hzero : ((0 : UInt8).toNat : ZMod 2) = 0 := rfl
  rw [hzero, zero_add]
  refine Finset.sum_congr rfl fun i _ => ?_
  rw [bit_mul, mG_bit, mul_comm]
  rfl

/-- An encoded word is a code word. -/
theorem encode_isCodeword (origBits : ℕ → UInt8) : IsCodeword (encode origBits) := by
  rw [IsCodeword, bits_encode, mulVec_mulVec, matrixH_mul_matrixG, zero_mulVec]

theorem bit_injective {a b : UInt8} (ha : a = 0 ∨ a = 1) (hb : b = 0 ∨ b = 1)
    (h : (a.toNat : ZMod 2) = b.toNat) : a = b := by
  rcases ha with rfl | rfl <;> rcases hb with rfl | rfl
  · rfl
  · exact absurd h (by decide)
  · exact absurd h (by decide)
  · rfl

theorem encode_bit (origBits : ℕ → UInt8) (j : ℕ) :
    encode origBits j = 0 ∨ encode origBits j = 1 := by
  rw [encode, ← UInt8.toNat_inj, ← UInt8.toNat_inj, UInt8.toNat_mod]
  exact Nat.mod_two_eq_zero_or_one _

theorem encode_data {origBits : ℕ → UInt8} (h : ∀ i < 12, origBits i = 0 ∨ origBits i = 1)
    (hi : i < 12) : encode origBits i = origBits i := by
  refine bit_injective (encode_bit origBits i) (h i hi) ?_
  have hbits := congrFun (bits_encode origBits) ⟨i, by omega⟩
  rw [mulVec, dotProduct] at hbits
  have hterm : ∀ k : Fin 12, matrixG.transpose ⟨i, by omega⟩ k * bits 12 origBits k =
      if k = ⟨i, hi⟩ then bits 12 origBits k else 0 := by
    intro k
    have hk : matrixG k ⟨i, by omega⟩ = if k = ⟨i, hi⟩ then 1 else 0 := matrixG_data k ⟨i, hi⟩
    rw [Matrix.transpose_apply, hk]
    split <;> simp
  rw [Finset.sum_congr rfl fun k _ => hterm k, Finset.sum_ite_eq' Finset.univ,
    if_pos (Finset.mem_univ _)] at hbits
  exact hbits

end DsdNeo.Fec.Golay2412
